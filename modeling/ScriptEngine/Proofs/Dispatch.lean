/-
This file works out the call instruction. Once its arguments and the callee are off the stack
and its frame is saved, a call goes one of three ways: it enters a script function, it runs a
native function to its end, or a native function has a script function entered and the call is
suspended. Of a call that fails it is enough to know that it has left scopes and frames as they
were.
-/

import ScriptEngine.Proofs.Calls

namespace ScriptEngine

open Relation

namespace Machine

variable {Result Next : Type}

/-! ### Entering a script function for the host -/

/-- The activation of a script function that is entered now. -/
def activation (machine : Machine) (waiting : Waiting) : Activation :=
  { pc := machine.current, depth := machine.frames.size, receiverMark := machine.receivers.size,
    waiting }

/-- A script function has been entered for the host: it has a frame of its own, saved with one
receiver more. -/
structure Activated (before after : Machine) : Prop where
  frames : after.frames = before.frames.push
    { pc := before.current, flags := before.flags, operandMark := before.operands.size,
      receiverMark := before.receivers.size + 1 }
  setting : after.setting = before.setting
  spares : Spares 0 0 before after
  scopes : before.scopes.Opens after.scopes

/-- The machine that is about to enter a script function for the host. -/
def awaiting (machine : Machine) (this : CellId) : Machine :=
  { machine with
    receivers := machine.receivers.push this
    frames := machine.frames.push
      { pc := machine.current
        flags := machine.flags
        operandMark := machine.operands.size
        receiverMark := (machine.receivers.push this).size } }

theorem shrink_push_self {Value : Type} (values : Array Value) (value : Value) :
    (values.push value).shrink values.size = values := by
  apply Array.toList_inj.mp
  simp

/-- `activate` over the limit puts the machine back as it was; below it the function is entered. -/
theorem activate_some (function : FunctionId) (this : CellId) (arguments : List CellId)
    (waiting : Waiting) (machine : Machine) :
    activate function (some this) arguments waiting machine =
      if (machine.awaiting this).overLimit then
        (.error (.script { cause := .frameLimit }) machine :
          EStateM.Result Fault Machine Activation)
      else
        (do
          enter function arguments false
          modify fun machine => { machine with current := machine.current + 1 }
          return machine.activation waiting : Action Activation) (machine.awaiting this) := by
  have refused : (do
        let _ ← popFrame
        modify fun later =>
          { later with receivers := later.receivers.shrink machine.receivers.size }
        raise .frameLimit : Action Activation) (machine.awaiting this) =
      .error (.script { cause := .frameLimit }) machine := by
    refine (bind_of_ok (popFrame_of_some (Array.back?_push))).trans ?_
    have restored : { machine.awaiting this with
        frames := (machine.awaiting this).frames.pop
        receivers := (machine.awaiting this).receivers.shrink machine.receivers.size } =
          machine := by
      simp only [awaiting, Array.pop_push, shrink_push_self]
    exact congrArg (EStateM.Result.error _) restored
  change (if (machine.awaiting this).overLimit = true then _ else _ : Action Activation)
    (machine.awaiting this) = _
  split
  · exact refused
  · rfl

/-- A receiver that is not given is found, or the machine breaks down. -/
theorem activate_cases (function : FunctionId) (receiver? : Option CellId)
    (arguments : List CellId) (waiting : Waiting) (machine : Machine) :
    (∃ this, activate function receiver? arguments waiting machine =
      activate function (some this) arguments waiting machine) ∨
    activate function receiver? arguments waiting machine =
      .error (.breakdown .noScopes) machine := by
  cases receiver? with
  | some this => exact .inl ⟨this, rfl⟩
  | none =>
    rcases receiver_cases machine with ⟨this, found⟩ | broken
    · exact .inl ⟨this, bind_of_ok found⟩
    · exact .inr (bind_of_error broken)

theorem activate_eq_ok {function : FunctionId} {receiver? : Option CellId}
    {arguments : List CellId} {waiting : Waiting} {machine final : Machine} {made : Activation}
    (ends : activate function receiver? arguments waiting machine = .ok made final) :
    made = machine.activation waiting ∧ machine.Activated final := by
  rcases activate_cases function receiver? arguments waiting machine with ⟨this, equal⟩ | broken
  · rw [equal, activate_some] at ends
    split at ends
    · cases ends
    · obtain ⟨_, entered, entering, ended⟩ := bind_eq_ok.mp ends
      cases ended
      have facts := (enter_eq_ok entering).2
      refine ⟨rfl, ?_, facts.setting, ?_, facts.scopes⟩
      · refine facts.frames.trans ?_
        simp only [awaiting, Array.size_push]
      · have spared := (Spares.pushReceiver machine this).trans
          (facts.spares.congr rfl rfl rfl rfl)
        exact spared.congr rfl rfl rfl rfl
  · rw [broken] at ends
    cases ends

/-- With a scope store only the limit of frames keeps `activate` from entering a script function,
and then it leaves no trace. -/
theorem activate_eq_error {function : FunctionId} {receiver? : Option CellId}
    {arguments : List CellId} {waiting : Waiting} {machine final : Machine} {fault : Fault}
    (usable : machine.attached = true)
    (ends : activate function receiver? arguments waiting machine = .error fault final) :
    fault = .script { cause := .frameLimit } ∧ final = machine := by
  have refused (this : CellId)
      (ends : activate function (some this) arguments waiting machine = .error fault final) :
      fault = .script { cause := .frameLimit } ∧ final = machine := by
    rw [activate_some] at ends
    split at ends
    · cases ends
      exact ⟨rfl, rfl⟩
    · have attached : (machine.awaiting this).attached = true := usable
      obtain ⟨entered, entering⟩ := enter_of_attached attached function arguments false
      cases (bind_of_ok entering).symm.trans ends
  cases receiver? with
  | some this => exact refused this ends
  | none => exact refused _ ((bind_of_ok (receiver_of_attached usable)).symm.trans ends)

/-! ### Native functions -/

theorem leavingFrame_eq_ok {action : Action Result} {machine final : Machine} {result : Result}
    (ends : leavingFrame action machine = .ok result final) :
    action machine = .ok result final := by
  cases tried : action machine with
  | ok value middle =>
    cases (tryCatch_of_ok tried).symm.trans ends
    rfl
  | error fault middle =>
    have handled := (tryCatch_of_error tried).symm.trans ends
    cases fault with
    | script fault =>
      obtain ⟨_, _, _, thrown⟩ := bind_eq_ok.mp handled
      cases thrown
    | malformed place malformation => cases handled
    | breakdown breakdown => cases handled

/-- `leavingFrame` has a script fault leave the topmost frame on its way out, and other faults leave
none. -/
theorem leavingFrame_eq_error {action : Action Result} {machine final : Machine} {fault : Fault}
    (ends : leavingFrame action machine = .error fault final) :
    ∃ first middle, action machine = .error first middle ∧
      ((∃ inner, first = .script inner ∧ leaveFrame middle = .error fault final) ∨
        (∃ inner frame, first = .script inner ∧ fault = first ∧
          leaveFrame middle = .ok frame final) ∨
        ((∀ inner, first ≠ .script inner) ∧ fault = first ∧ final = middle)) := by
  cases tried : action machine with
  | ok value middle => cases (tryCatch_of_ok tried).symm.trans ends
  | error first middle =>
    refine ⟨first, middle, rfl, ?_⟩
    have handled := (tryCatch_of_error tried).symm.trans ends
    cases first with
    | script inner =>
      rcases bind_eq_error.mp handled with failed | ⟨frame, left, leaving, thrown⟩
      · exact .inl ⟨inner, rfl, failed⟩
      · cases thrown
        exact .inr (.inl ⟨inner, frame, rfl, rfl, leaving⟩)
    | malformed place malformation =>
      cases handled
      exact .inr (.inr ⟨by simp, rfl, rfl⟩)
    | breakdown breakdown =>
      cases handled
      exact .inr (.inr ⟨by simp, rfl, rfl⟩)

/-- A `callNative` that succeeds is over, or has a script function entered. -/
theorem callNative_eq_ok {native : Native} {arguments : List CellId} {construct : Bool}
    {machine final : Machine} {flow : Flow}
    (ends : callNative native arguments construct machine = .ok flow final) :
    ∃ this, receiver machine = .ok this machine ∧
      ((∃ result middle,
        callHost native (some this) arguments machine = .ok (.value result) middle ∧
        finishNative construct result middle = .ok () final ∧ flow = .done) ∨
      (∃ function receiver? passed middle made,
        callHost native (some this) arguments machine =
          .ok (.enter function receiver? passed) middle ∧
        activate function receiver? passed (.call construct) middle = .ok made final ∧
        flow = .suspended made)) := by
  obtain ⟨this, found, receiving, ends⟩ := bind_eq_ok.mp ends
  rcases receiver_cases machine with ⟨cell, equal⟩ | broken
  · cases equal.symm.trans receiving
    refine ⟨this, equal, ?_⟩
    obtain ⟨way, reached, tried, ended⟩ := bind_eq_ok.mp ends
    obtain ⟨host, middle, hosted, continued⟩ := bind_eq_ok.mp (leavingFrame_eq_ok tried)
    cases host with
    | value result =>
      cases continued
      obtain ⟨_, finished, finishing, flowing⟩ := bind_eq_ok.mp ended
      cases flowing
      exact .inl ⟨result, _, hosted, finishing, rfl⟩
    | enter function receiver? passed =>
      obtain ⟨made, entered, activating, returned⟩ := bind_eq_ok.mp continued
      cases returned
      cases ended
      exact .inr ⟨function, receiver?, passed, middle, made, hosted, activating, rfl⟩
  · cases broken.symm.trans receiving

/-- What a native function comes to that an instruction calls: a result, or an activation of the
script function that it has entered. -/
def answered (native : Native) (this : CellId) (arguments : List CellId) (construct : Bool) :
    Action (CellId ⊕ Activation) := do
  match ← callHost native (some this) arguments with
  | .value result => return Sum.inl result
  | .enter function receiver? arguments =>
    return Sum.inr (← activate function receiver? arguments (.call construct))

/-- A `callNative` whose native function has a result. -/
theorem callNative_of_value {native : Native} {arguments : List CellId} {construct : Bool}
    {machine middle final : Machine} {this result : CellId}
    (found : receiver machine = .ok this machine)
    (hosted : callHost native (some this) arguments machine = .ok (.value result) middle)
    (finishing : finishNative construct result middle = .ok () final) :
    callNative native arguments construct machine = .ok .done final := by
  refine (bind_of_ok found).trans ?_
  have tried : leavingFrame (answered native this arguments construct) machine =
      .ok (.inl result) middle :=
    tryCatch_of_ok (bind_of_ok hosted)
  exact (bind_of_ok tried).trans (bind_of_ok finishing)

/-- A `callNative` whose native function has a script function entered. -/
theorem callNative_of_enter {native : Native} {arguments passed : List CellId} {construct : Bool}
    {machine middle final : Machine} {this : CellId} {function : FunctionId}
    {receiver? : Option CellId} {made : Activation}
    (found : receiver machine = .ok this machine)
    (hosted : callHost native (some this) arguments machine =
      .ok (.enter function receiver? passed) middle)
    (activating : activate function receiver? passed (.call construct) middle = .ok made final) :
    callNative native arguments construct machine = .ok (.suspended made) final := by
  refine (bind_of_ok found).trans ?_
  have tried : leavingFrame (answered native this arguments construct) machine =
      .ok (.inr made) final :=
    tryCatch_of_ok ((bind_of_ok hosted).trans (bind_of_ok activating))
  exact bind_of_ok tried

theorem callHost_left {native : Native} {receiver? : Option CellId} {arguments : List CellId}
    {machine final : Machine}
    (left : leftBy (callHost native receiver? arguments) machine = final) :
    final = { machine with heap := final.heap, output := final.output } := by
  have asides := aside_callHost native receiver? arguments machine
  unfold Leads at asides
  rw [left] at asides
  exact eq_of_aside asides

/-- With a scope store a native function, and the entry of a script function that it asks for, can
only fail by a script fault, as `answered` says. -/
theorem answered_eq_error {native : Native} {this : CellId} {arguments : List CellId}
    {construct : Bool} {machine final : Machine} {fault : Fault} (usable : machine.attached = true)
    (ends : answered native this arguments construct machine = .error fault final) :
    (∃ cause, fault = .script { cause }) ∧
      final = { machine with heap := final.heap, output := final.output } := by
  rcases bind_eq_error.mp ends with failed | ⟨host, middle, hosted, continued⟩
  · exact ⟨raises_callHost _ _ _ _ _ _ failed, callHost_left (leftBy_of_error failed)⟩
  · have equal := callHost_left (leftBy_of_ok hosted)
    cases host with
    | value result => cases continued
    | enter function receiver? passed =>
      rcases bind_eq_error.mp continued with failed | ⟨_, _, _, returned⟩
      · obtain ⟨rfl, rfl⟩ := activate_eq_error (by rw [equal]; exact usable) failed
        exact ⟨⟨_, rfl⟩, equal⟩
      · cases returned

/-- With a scope store a `callNative` that fails has raised a script fault, and leaves its frame. -/
theorem callNative_eq_error {native : Native} {arguments : List CellId} {construct : Bool}
    {machine final : Machine} {fault : Fault} {frame : Frame} (usable : machine.attached = true)
    (saved : machine.frames.back? = some frame)
    (ends : callNative native arguments construct machine = .error fault final) :
    (∃ cause, fault = .script { cause }) ∧ final.scopes = machine.scopes ∧
      final.frames = machine.frames.pop := by
  have ends := (bind_of_ok (receiver_of_attached usable)).symm.trans ends
  rcases bind_eq_error.mp ends with failed | ⟨way, middle, tried, ended⟩
  · obtain ⟨first, middle, hosted, outcome⟩ := leavingFrame_eq_error failed
    obtain ⟨⟨cause, rfl⟩, equal⟩ := answered_eq_error usable hosted
    have scopes : middle.scopes = machine.scopes := by rw [equal]
    have frames : middle.frames = machine.frames := by rw [equal]
    have leaves := leaveFrame_of_some (frames ▸ saved)
    rcases outcome with ⟨_, _, leaving⟩ | ⟨_, _, _, rfl, leaving⟩ | ⟨other, _⟩
    · cases leaves.symm.trans leaving
    · cases leaves.symm.trans leaving
      exact ⟨⟨cause, rfl⟩, scopes, congrArg Array.pop frames⟩
    · exact absurd rfl (other _)
  · cases way with
    | inr made => cases ended
    | inl result =>
      obtain ⟨host, reached, hosted, continued⟩ := bind_eq_ok.mp (leavingFrame_eq_ok tried)
      cases host with
      | enter function receiver? passed =>
        obtain ⟨_, _, _, returned⟩ := bind_eq_ok.mp continued
        cases returned
      | value value =>
        cases continued
        have frames : middle.frames = machine.frames := by
          rw [callHost_left (leftBy_of_ok hosted)]
        have finishing := finishNative_of_some construct result (frames ▸ saved)
        cases ((bind_of_ok finishing).symm.trans ended)

/-! ### The call instruction -/

/-- The frame that a call with some arguments saves. -/
def callFrame (machine : Machine) (count : Nat) : Frame :=
  { pc := machine.current
    flags := machine.flags
    operandMark := machine.operands.size - (count + 1)
    receiverMark := machine.receivers.size }

/-- The machine once a call has taken its arguments and its callee and saved its frame. -/
def calling (machine : Machine) (count : Nat) : Machine :=
  { machine with
    operands := machine.operands.shrink (machine.operands.size - (count + 1))
    frames := machine.frames.push (machine.callFrame count)
    flags := { machine.flags with construct := false } }

/-- The cells of the arguments of a call, lowest first. -/
def argumentCells (machine : Machine) (count : Nat) : List CellId :=
  machine.cells.drop (machine.operands.size - count)

/-- The cell that a call with some arguments calls. -/
def callee? (machine : Machine) (count : Nat) : Option CellId :=
  machine.cells[machine.operands.size - (count + 1)]?

/-- The rest of a call, once its frame is saved. -/
def dispatch (callee : CellId) (arguments : List CellId) (construct : Bool) : Action Flow := do
  if (← get).overLimit then
    let _ ← popFrame
    raise .frameLimit
  else
    match (← contentOf callee).callable? with
    | none =>
      let _ ← popFrame
      raise .notCallable
    | some function =>
      onHeap (Heap.prepare function)
      match ((← get).heap.function function).native with
      | some native => callNative native arguments construct
      | none =>
        enter function arguments construct
        return .done

/-- Taking one operand more first takes the topmost one. -/
theorem argumentCells_of_push {machine : Machine} {lower : Array Operand} {operand : Operand}
    (equal : machine.operands = lower.push operand) (count : Nat) :
    machine.argumentCells (count + 1) =
      ({ machine with operands := lower } : Machine).argumentCells count ++ [operand.cell] := by
  simp only [argumentCells, cells, equal, Array.size_push, Array.toList_push, List.map_append,
    List.map_cons, List.map_nil, Nat.add_sub_add_right]
  rw [List.drop_append_of_le_length (by simp)]

theorem shrink_push_of_le {Value : Type} (values : Array Value) (value : Value) {size : Nat}
    (room : size ≤ values.size) : (values.push value).shrink size = values.shrink size := by
  apply Array.toList_inj.mp
  rw [Array.toList_shrink, Array.toList_shrink, Array.toList_push,
    List.take_append_of_le_length (by simpa using room)]

theorem shrink_succ {Value : Type} {values : Array Value} {size : Nat} (room : size < values.size) :
    values.shrink (size + 1) = (values.shrink size).push values[size] := by
  apply Array.toList_inj.mp
  rw [Array.toList_push, Array.toList_shrink, Array.toList_shrink, ← Array.getElem_toList,
    List.take_append_getElem]

theorem popOnto_of_le {machine : Machine} {count : Nat} (room : count ≤ machine.operands.size)
    (rest : List CellId) :
    popOnto count rest machine =
      .ok (machine.argumentCells count ++ rest)
        { machine with operands := machine.operands.shrink (machine.operands.size - count) } := by
  induction count generalizing machine rest with
  | zero =>
    have none : machine.argumentCells 0 = [] := by simp [argumentCells]
    have whole : machine.operands.shrink (machine.operands.size - 0) = machine.operands := by simp
    rw [none, whole]
    rfl
  | succ count inductionHypothesis =>
    obtain ⟨lower, operand, equal⟩ := Array.exists_push_of_size_pos (Nat.zero_lt_of_lt room)
    have topmost : machine.operands.back? = some operand := by rw [equal, Array.back?_push]
    have lowered : machine.operands.pop = lower := by rw [equal, Array.pop_push]
    have height : machine.operands.size = lower.size + 1 := by rw [equal, Array.size_push]
    have fewer : count ≤ lower.size := by omega
    unfold popOnto
    rw [bind_of_ok (pop_of_some topmost), lowered, inductionHypothesis (by exact fewer),
      argumentCells_of_push equal count, List.append_assoc, height, Nat.add_sub_add_right, equal,
      shrink_push_of_le lower operand (Nat.sub_le _ _)]
    rfl

theorem popOnto_of_lt {machine : Machine} {count : Nat} (short : machine.operands.size < count)
    (rest : List CellId) :
    ∃ fault operands, popOnto count rest machine = .error fault { machine with operands } := by
  induction count generalizing machine rest with
  | zero => cases short
  | succ count inductionHypothesis =>
    cases topmost : machine.operands.back? with
    | none => exact ⟨_, machine.operands, bind_of_error (pop_of_none topmost)⟩
    | some operand =>
      have shorter : ({ machine with operands := machine.operands.pop } : Machine).operands.size <
          count := by
        rw [Array.size_pop]
        have : machine.operands.size ≠ 0 := by
          intro empty
          rw [Array.eq_empty_of_size_eq_zero empty] at topmost
          cases topmost
        omega
      obtain ⟨fault, operands, fails⟩ := inductionHypothesis shorter (operand.cell :: rest)
      exact ⟨fault, operands, (bind_of_ok (pop_of_some topmost)).trans fails⟩

/-- With enough operands a call comes to the point where its frame is saved, and goes on as
`dispatch`. -/
theorem call_of_room {machine : Machine} {count : Nat} (room : count < machine.operands.size) :
    ∃ callee, machine.callee? count = some callee ∧
      call count machine =
        dispatch callee (machine.argumentCells count) machine.flags.construct
          (machine.calling count) := by
  have taken := popOnto_of_le (Nat.le_of_lt room) []
  rw [List.append_nil] at taken
  have place : machine.operands.size - (count + 1) < machine.operands.size := by omega
  have cut : machine.operands.shrink (machine.operands.size - count) =
      (machine.operands.shrink (machine.operands.size - (count + 1))).push
        machine.operands[machine.operands.size - (count + 1)] := by
    rw [← shrink_succ place]
    congr 1
    omega
  refine ⟨machine.operands[machine.operands.size - (count + 1)].cell,
    by simp [callee?, cells, place], ?_⟩
  unfold call
  refine (bind_of_ok taken).trans ?_
  refine (bind_of_ok (pop_of_some (by rw [cut]; exact Array.back?_push))).trans ?_
  have equal : ({ machine with
    operands := (machine.operands.shrink (machine.operands.size - count)).pop
    frames := machine.frames.push
      { pc := machine.current
        flags := machine.flags
        operandMark := ((machine.operands.shrink (machine.operands.size - count)).pop).size
        receiverMark := machine.receivers.size }
    flags := { machine.flags with construct := false } } : Machine) = machine.calling count := by
    unfold calling callFrame
    rw [cut, Array.pop_push, Array.size_shrink, Nat.min_eq_left (Nat.sub_le _ _)]
  rw [← equal]
  rfl

/-- Without enough operands a call has only taken operands. -/
theorem call_of_short {machine : Machine} {count : Nat} (short : machine.operands.size ≤ count) :
    ∃ fault operands, call count machine = .error fault { machine with operands } := by
  rcases Nat.lt_or_eq_of_le short with shorter | equal
  · obtain ⟨fault, operands, fails⟩ := popOnto_of_lt shorter []
    exact ⟨fault, operands, bind_of_error fails⟩
  · have taken := popOnto_of_le (Nat.le_of_eq equal.symm) []
    have empty : (machine.operands.shrink (machine.operands.size - count)).back? = none := by
      rw [equal, Nat.sub_self, Array.back?_eq_none_iff]
      simp
    exact ⟨_, _, (bind_of_ok taken).trans (bind_of_error (pop_of_none empty))⟩

/-- The machine that is about to call a function. -/
def ready (machine : Machine) (count : Nat) (function : FunctionId) : Machine :=
  { machine.calling count with heap := (Heap.prepare function machine.heap).2 }

/-- A function that is given its prototype stays the function it is. -/
theorem native_prepare (function : FunctionId) (heap : Heap) :
    ((Heap.prepare function heap).2.function function).native =
      (heap.function function).native := by
  cases bound : (heap.function function).properties.get? Heap.prototypeName with
  | some prototype => rw [Heap.prepare_of_some bound]
  | none =>
    rw [Heap.prepare_of_none bound]
    change ((heap.functions.modify _ _).getD _ _).native = (heap.functions.getD _ _).native
    rw [Array.getD_eq_getD_getElem?, Array.getD_eq_getD_getElem?, Array.getElem?_modify,
      if_pos rfl]
    cases heap.functions[function.index]? with
    | none => rfl
    | some body => rfl

theorem dispatch_of_overLimit {machine : Machine} (exceeded : machine.overLimit = true)
    {frame : Frame} (saved : machine.frames.back? = some frame) (callee : CellId)
    (arguments : List CellId) (construct : Bool) :
    dispatch callee arguments construct machine =
      .error (.script { cause := .frameLimit }) { machine with frames := machine.frames.pop } := by
  unfold dispatch
  rw [get_bind, if_pos exceeded, bind_of_ok (popFrame_of_some saved)]
  rfl

theorem dispatch_of_uncallable {machine : Machine} (under : machine.overLimit = false)
    {frame : Frame} (saved : machine.frames.back? = some frame) {callee : CellId}
    (uncallable : (machine.heap.content callee).callable? = none) (arguments : List CellId)
    (construct : Bool) :
    dispatch callee arguments construct machine =
      .error (.script { cause := .notCallable }) { machine with frames := machine.frames.pop } := by
  unfold dispatch
  have read : contentOf callee machine = .ok (machine.heap.content callee) machine := rfl
  rw [get_bind, if_neg (by rw [under]; exact Bool.false_ne_true), bind_of_ok read, uncallable]
  dsimp only
  rw [bind_of_ok (popFrame_of_some saved)]
  rfl

/-- `dispatch` gives what can be called its prototype, and then depends on the kind of function. -/
theorem dispatch_of_callable {machine : Machine} (under : machine.overLimit = false)
    {callee : CellId} {function : FunctionId}
    (callable : (machine.heap.content callee).callable? = some function) (arguments : List CellId)
    (construct : Bool) :
    dispatch callee arguments construct machine =
      (match (machine.heap.function function).native with
      | some native => callNative native arguments construct
      | none => do
        enter function arguments construct
        return .done)
        { machine with heap := (Heap.prepare function machine.heap).2 } := by
  unfold dispatch
  have read : contentOf callee machine = .ok (machine.heap.content callee) machine := rfl
  rw [get_bind, if_neg (by rw [under]; exact Bool.false_ne_true), bind_of_ok read, callable]
  dsimp only
  rw [onHeap_bind, get_bind, native_prepare]

theorem content_of_callable {content : Content} {function : FunctionId}
    (callable : content.callable? = some function) : content = .function function := by
  cases content with
  | function id =>
    cases callable
    rfl
  | _ => cases callable

/-- A call that succeeds enters a script function or calls a native one, `callNative`. -/
theorem call_eq_ok {machine final : Machine} {count : Nat} {flow : Flow}
    (ends : call count machine = .ok flow final) :
    count < machine.operands.size ∧ ∃ callee function, machine.callee? count = some callee ∧
      machine.heap.content callee = .function function ∧
      (((machine.heap.function function).native = none ∧ flow = .done ∧
        enter function (machine.argumentCells count) machine.flags.construct
          (machine.ready count function) = .ok () final) ∨
      ∃ native, (machine.heap.function function).native = some native ∧
        callNative native (machine.argumentCells count) machine.flags.construct
          (machine.ready count function) = .ok flow final) := by
  rcases Nat.lt_or_ge count machine.operands.size with room | short
  · refine ⟨room, ?_⟩
    obtain ⟨callee, known, equal⟩ := call_of_room room
    rw [equal] at ends
    have saved : (machine.calling count).frames.back? = some (machine.callFrame count) :=
      Array.back?_push
    cases exceeded : (machine.calling count).overLimit with
    | true => cases (dispatch_of_overLimit exceeded saved ..).symm.trans ends
    | false =>
      cases callable : (machine.heap.content callee).callable? with
      | none => cases (dispatch_of_uncallable exceeded saved callable ..).symm.trans ends
      | some function =>
        refine ⟨callee, function, known, content_of_callable callable, ?_⟩
        have ends := (dispatch_of_callable exceeded (by exact callable) ..).symm.trans ends
        cases kind : (machine.heap.function function).native with
        | some native =>
          rw [show ((machine.calling count).heap.function function).native = _ from kind] at ends
          exact .inr ⟨native, rfl, ends⟩
        | none =>
          rw [show ((machine.calling count).heap.function function).native = _ from kind] at ends
          obtain ⟨_, entered, entering, done⟩ := bind_eq_ok.mp ends
          cases done
          exact .inl ⟨rfl, rfl, entering⟩
  · obtain ⟨fault, operands, fails⟩ := call_of_short short
    cases fails.symm.trans ends

/-- A call of a function within the limit of frames. -/
theorem call_of_callable {machine : Machine} {count : Nat} {callee : CellId}
    {function : FunctionId} (room : count < machine.operands.size)
    (known : machine.callee? count = some callee)
    (content : machine.heap.content callee = .function function)
    (under : (machine.calling count).overLimit = false) :
    call count machine =
      (match (machine.heap.function function).native with
      | some native => callNative native (machine.argumentCells count) machine.flags.construct
      | none => do
        enter function (machine.argumentCells count) machine.flags.construct
        return .done) (machine.ready count function) := by
  obtain ⟨other, known', equal⟩ := call_of_room room
  cases known.symm.trans known'
  have callable : ((machine.calling count).heap.content callee).callable? = some function := by
    rw [show (machine.calling count).heap.content callee = _ from content]
    rfl
  exact equal.trans (dispatch_of_callable under callable ..)

/-- With a scope store a call that fails leaves scopes and frames as they were. -/
theorem call_eq_error {machine final : Machine} {count : Nat} {fault : Fault}
    (usable : machine.attached = true) (ends : call count machine = .error fault final) :
    final.scopes = machine.scopes ∧ final.frames = machine.frames := by
  rcases Nat.lt_or_ge count machine.operands.size with room | short
  · obtain ⟨callee, known, equal⟩ := call_of_room room
    rw [equal] at ends
    have saved : (machine.calling count).frames.back? = some (machine.callFrame count) :=
      Array.back?_push
    have popped : (machine.calling count).frames.pop = machine.frames := Array.pop_push
    cases exceeded : (machine.calling count).overLimit with
    | true =>
      cases (dispatch_of_overLimit exceeded saved ..).symm.trans ends
      exact ⟨rfl, popped⟩
    | false =>
      cases callable : (machine.heap.content callee).callable? with
      | none =>
        cases (dispatch_of_uncallable exceeded saved callable ..).symm.trans ends
        exact ⟨rfl, popped⟩
      | some function =>
        have ends := (dispatch_of_callable exceeded (by exact callable) ..).symm.trans ends
        cases kind : (machine.heap.function function).native with
        | some native =>
          rw [show ((machine.calling count).heap.function function).native = _ from kind] at ends
          obtain ⟨_, scopes, frames⟩ := callNative_eq_error (by exact usable) (by exact saved) ends
          exact ⟨scopes, frames.trans popped⟩
        | none =>
          rw [show ((machine.calling count).heap.function function).native = _ from kind] at ends
          have attached : (machine.ready count function).attached = true := usable
          obtain ⟨entered, entering⟩ := enter_of_attached attached function
            (machine.argumentCells count) machine.flags.construct
          cases (bind_of_ok entering).symm.trans ends
  · obtain ⟨failure, operands, fails⟩ := call_of_short short
    cases fails.symm.trans ends
    exact ⟨rfl, rfl⟩

/-- With a scope store a return that fails leaves scopes and frames alone. -/
theorem ret_eq_error {machine final : Machine} {fault : Fault} (usable : machine.attached = true)
    (ends : ret machine = .error fault final) :
    final.scopes = machine.scopes ∧ final.frames = machine.frames := by
  cases topmost : machine.operands.back? with
  | none =>
    cases (bind_of_error (pop_of_none topmost)).symm.trans ends
    exact ⟨rfl, rfl⟩
  | some operand =>
    cases saved : machine.frames.back? with
    | some frame => cases (ret_of_some usable topmost saved).symm.trans ends
    | none =>
      have ends := (bind_of_ok (pop_of_some topmost)).symm.trans ends
      have ends := (get_bind _ _).symm.trans ends
      dsimp only at ends
      rw [saved] at ends
      cases ends
      exact ⟨rfl, rfl⟩

end Machine

end ScriptEngine
