/-
This file is about the limit of frames. Frames are saved in two places only: by a call instruction,
before it is known what is called, and by a native function that has a script function entered.
Both look whether there are too many frames and take the frame back if so. A machine with a limit
and the same machine without one therefore move alike until a move needs a frame too many; there the
limited machine raises its fault, and the fault goes out through the activations like any other.
-/

import ScriptEngine.Proofs.Disguise
import ScriptEngine.Proofs.Leaving

namespace ScriptEngine

open Machine

/-- The disguise that gives a machine another limit of frames. -/
def Disguise.limiting (limit : Int64) : Disguise where
  receivers := id
  frames := id
  limit := fun _ => limit

namespace Machine

variable {Result : Type} {limit : Int64} {machine : Machine}

/-- The machine with another limit of frames. -/
def limitedTo (limit : Int64) (machine : Machine) : Machine :=
  { machine with limit }

theorem disguised_limiting (limit : Int64) (machine : Machine) :
    machine.disguised (.limiting limit) = machine.limitedTo limit :=
  rfl

theorem fits_limiting (machine : Machine) : machine.Fits (.limiting limit) :=
  ⟨fun _ => rfl, .inl rfl⟩

theorem overLimit_limitedTo (positive : 0 < limit) (machine : Machine) :
    (machine.limitedTo limit).overLimit = decide (limit.toInt < machine.frames.size) := by
  change (decide (0 < limit) && _) = _
  rw [decide_eq_true positive]
  rfl

theorem frames_le_of_not_overLimit (limited : 0 < machine.limit)
    (under : ¬ machine.overLimit = true) : (machine.frames.size : Int) ≤ machine.limit.toInt := by
  unfold overLimit at under
  rw [decide_eq_true limited] at under
  simpa using under

/-! ### What does not look at the limit -/

theorem mirrors_popReceiver : Mirrors (.limiting limit) popReceiver machine := by
  refine .get rfl ?_
  split
  · exact .bind (mirrors_pushCell _) fun _ _ _ => .modify _ rfl
  · split
    · exact mirrors_pushCell _
    · exact .throw _

theorem mirrors_popFrame : Mirrors (.limiting limit) popFrame machine := by
  refine .get rfl ?_
  split
  · exact .bind (.modify _ rfl) fun _ _ _ => .pure _
  · exact mirrors_malformed _

theorem mirrors_leaveFrame : Mirrors (.limiting limit) leaveFrame machine :=
  .bind mirrors_popFrame fun _ _ _ => .bind (.modify _ rfl) fun _ _ _ =>
    .bind (.modify _ rfl) fun _ _ _ => .pure _

theorem mirrors_restore : Mirrors (.limiting limit) restore machine :=
  .bind mirrors_popFrame fun _ _ _ => .bind (.modify _ rfl) fun _ _ _ =>
    .bind (.modify _ rfl) fun _ _ _ => .pure _

theorem mirrors_constructed (frame : Frame) :
    Mirrors (.limiting limit) (constructed frame) machine := by
  refine .get rfl ?_
  split
  · exact .pure _
  · exact mirrors_receiver (fits_limiting _)

theorem mirrors_ret : Mirrors (.limiting limit) ret machine := by
  refine .bind mirrors_pop fun result _ _ => .get rfl ?_
  have ending (middle : Machine) : Mirrors (.limiting limit) (do
      pushCell result.cell
      onScopes Scopes.pop
      setFlags) middle :=
    .bind (mirrors_pushCell _) fun _ _ _ => .bind (mirrors_onScopes _) fun _ _ _ => mirrors_setFlags
  split
  · exact mirrors_malformed _
  · split
    · exact .bind (mirrors_constructed _) fun this _ _ => .bind mirrors_restore fun _ _ _ =>
        .bind (mirrors_pushReceiver (fits_limiting _) this) fun _ _ _ =>
          .bind (.modify _ rfl) fun _ cleared _ => ending cleared
    · exact .bind mirrors_restore fun _ restored _ => ending restored

theorem mirrors_finishNative (construct : Bool) (result : CellId) :
    Mirrors (.limiting limit) (finishNative construct result) machine := by
  refine .bind mirrors_leaveFrame fun _ _ _ => .bind (mirrors_pushCell _) fun _ _ _ => ?_
  cases construct with
  | false => exact mirrors_setFlags
  | true =>
    exact .bind (mirrors_pushReceiver (fits_limiting _) result) fun _ _ _ =>
      .bind (.modify _ rfl) fun _ _ _ => mirrors_setFlags

theorem mirrors_unwind (fault : ScriptFault) (pending : List Activation) :
    Mirrors (.limiting limit) (unwind fault pending) machine := by
  induction pending generalizing fault machine with
  | nil => exact .throw _
  | cons activation pending inductionHypothesis =>
    unfold unwind
    split
    · exact .throw _
    · exact .bind mirrors_leaveFrame fun _ _ _ => .get rfl (inductionHypothesis _)

theorem mirrors_conclude (activation : Activation) :
    Mirrors (.limiting limit) (conclude activation) machine := by
  refine .bind (.modify _ rfl) fun _ _ _ => .bind mirrors_pop fun result _ _ => .get rfl ?_
  split
  · exact .throw _
  · exact .bind (.modify _ rfl) fun _ _ _ => .pure _

theorem mirrors_resume (activation : Activation) (pending : List Activation) :
    Mirrors (.limiting limit) (resume activation pending) machine := by
  refine .bind (mirrors_conclude activation) fun result _ _ => ?_
  split
  · exact .pure _
  · exact .bind (mirrors_finishNative _ result) fun _ _ _ =>
      .bind mirrors_stepOver fun _ _ _ => .pure _

theorem mirrors_leavingFrame {action : Action Result}
    (inner : Mirrors (.limiting limit) action machine) :
    Mirrors (.limiting limit) (leavingFrame action) machine := by
  refine .tryCatch inner fun fault middle _ => ?_
  cases fault with
  | script fault => exact .bind mirrors_leaveFrame fun _ _ _ => .throw _
  | malformed place malformation => exact .throw _
  | breakdown breakdown => exact .throw _

/-! ### Frames within the limit -/

theorem overLimit_calling (positive : 0 < limit) (machine : Machine) (count : Nat) :
    ((machine.limitedTo limit).calling count).overLimit =
      decide (limit.toInt < machine.frames.size + 1) := by
  change ((machine.calling count).limitedTo limit).overLimit = _
  rw [overLimit_limitedTo positive]
  simp only [calling, Array.size_push]
  rfl

theorem overLimit_awaiting (positive : 0 < limit) (machine : Machine) (this : CellId) :
    ((machine.limitedTo limit).awaiting this).overLimit =
      decide (limit.toInt < machine.frames.size + 1) := by
  change ((machine.awaiting this).limitedTo limit).overLimit = _
  rw [overLimit_limitedTo positive]
  simp only [awaiting, Array.size_push]
  rfl

/-- `activate` enters a script function alike if its frame is within the limit: it `Mirrors`. -/
theorem mirrors_activate (positive : 0 < limit) (unlimited : machine.limit ≤ 0)
    (room : (machine.frames.size + 1 : Int) ≤ limit.toInt) (function : FunctionId)
    (receiver? : Option CellId) (arguments : List CellId) (waiting : Waiting) :
    Mirrors (.limiting limit) (activate function receiver? arguments waiting) machine := by
  have entering (this : CellId) :
      Mirrors (.limiting limit) (activate function (some this) arguments waiting) machine := by
    have free : (machine.awaiting this).overLimit = false := overLimit_of_unlimited unlimited
    have within : ((machine.limitedTo limit).awaiting this).overLimit = false :=
      (overLimit_awaiting positive machine this).trans (decide_eq_false (not_lt.mpr room))
    have entered : Mirrors (.limiting limit) (do
        enter function arguments false
        modify fun machine => { machine with current := machine.current + 1 }
        return machine.activation waiting) (machine.awaiting this) :=
      .bind (mirrors_enter (fits_limiting _) function arguments false) fun _ _ _ =>
        .bind (.modify _ rfl) fun _ _ _ => .pure _
    unfold Mirrors
    rw [activate_some, activate_some, disguised_limiting, free, within, if_neg Bool.false_ne_true,
      if_neg Bool.false_ne_true]
    exact entered
  cases receiver? with
  | some this => exact entering this
  | none =>
    refine .bind (mirrors_receiver (fits_limiting machine)) fun this middle ends => ?_
    rcases receiver_cases machine with ⟨cell, found⟩ | broken
    · cases found.symm.trans ends
      exact entering this
    · cases broken.symm.trans ends

theorem mirrors_callNative (positive : 0 < limit) (unlimited : machine.limit ≤ 0)
    {native : Native} {arguments : List CellId} (construct : Bool)
    (room : ∀ {this function receiver? passed middle}, receiver machine = .ok this machine →
      callHost native (some this) arguments machine =
        .ok (.enter function receiver? passed) middle →
      (machine.frames.size + 1 : Int) ≤ limit.toInt) :
    Mirrors (.limiting limit) (callNative native arguments construct) machine := by
  refine .bind (mirrors_receiver (fits_limiting machine)) fun this found receiving => ?_
  have same : found = machine := by
    rcases receiver_cases machine with ⟨cell, equal⟩ | broken
    · cases equal.symm.trans receiving
      rfl
    · cases broken.symm.trans receiving
  subst same
  refine .bind (mirrors_leavingFrame ?_) fun way _ _ => ?_
  · refine .bind (mirrors_callHost native _ arguments) fun call middle hosted => ?_
    cases call with
    | value result => exact .pure _
    | enter function receiver? passed =>
      have left := callHost_left (leftBy_of_ok hosted)
      refine .bind (mirrors_activate positive ?_ ?_ function receiver? passed _)
        fun _ _ _ => .pure _
      · rw [left]
        exact unlimited
      · rw [left]
        exact room receiving hosted
  · cases way with
    | inl result => exact .bind (mirrors_finishNative construct result) fun _ _ _ => .pure _
    | inr activation => exact .pure _

/-- Once its frame is saved, a call goes on alike, `Mirrors`, if neither its frame nor the one that
its native function has saved is too many. -/
theorem mirrors_dispatch (positive : 0 < limit) (unlimited : machine.limit ≤ 0) {frame : Frame}
    (saved : machine.frames.back? = some frame) {callee : CellId} {arguments : List CellId}
    (construct : Bool) (within : (machine.frames.size : Int) ≤ limit.toInt)
    (room : ∀ {function native this entered receiver? passed middle},
      machine.heap.content callee = .function function →
      (machine.heap.function function).native = some native →
      receiver { machine with heap := (Heap.prepare function machine.heap).2 } =
        .ok this { machine with heap := (Heap.prepare function machine.heap).2 } →
      callHost native (some this) arguments
        { machine with heap := (Heap.prepare function machine.heap).2 } =
          .ok (.enter entered receiver? passed) middle →
      (machine.frames.size + 1 : Int) ≤ limit.toInt) :
    Mirrors (.limiting limit) (dispatch callee arguments construct) machine := by
  have free := overLimit_of_unlimited unlimited
  have under : (machine.limitedTo limit).overLimit = false := by
    rw [overLimit_limitedTo positive, decide_eq_false_iff_not]
    omega
  unfold Mirrors
  rw [disguised_limiting]
  cases callable : (machine.heap.content callee).callable? with
  | none =>
    rw [dispatch_of_uncallable free saved callable,
      dispatch_of_uncallable under (by exact saved) (by exact callable)]
    rfl
  | some function =>
    have content := content_of_callable callable
    rw [dispatch_of_callable free callable, dispatch_of_callable under (by exact callable)]
    cases kind : (machine.heap.function function).native with
    | some native =>
      rw [show ((machine.limitedTo limit).heap.function function).native = _ from kind]
      have called : Mirrors (.limiting limit) (callNative native arguments construct)
          { machine with heap := (Heap.prepare function machine.heap).2 } :=
        mirrors_callNative positive (by exact unlimited) construct fun receiving hosted =>
          room content kind receiving hosted
      exact called
    | none =>
      rw [show ((machine.limitedTo limit).heap.function function).native = _ from kind]
      have entered : Mirrors (.limiting limit) (do
          enter function arguments construct
          return Flow.done) { machine with heap := (Heap.prepare function machine.heap).2 } :=
        .bind (mirrors_enter (fits_limiting _) function arguments construct) fun _ _ _ => .pure _
      exact entered

end Machine

namespace Configuration

variable {View : Type} {observe : Machine → View → View} {limit : Int64}
  {configuration before after first last : Configuration} {passed : List Configuration}

/-- The configuration of a machine with another limit of frames. -/
def limitedTo (limit : Int64) (configuration : Configuration) : Configuration :=
  ⟨configuration.machine.limitedTo limit, configuration.pending⟩

/-- The next move saves a frame, and there are that many then. -/
inductive NeedsFrames (configuration : Configuration) : Nat → Prop where
  /-- A call instruction saves a frame, whatever it calls. -/
  | call {instruction : Instruction CellId} {count : Nat} (executes : configuration.Executes)
    (present : configuration.machine.instruction? = some instruction)
    (isCall : instruction.opcode = .call) (kind : instruction.datum.kind = .number)
    (size : Number.size? instruction.datum.number = some count)
    (room : count < configuration.machine.operands.size) :
    NeedsFrames configuration (configuration.machine.frames.size + 1)
  /-- A native function that has a script function entered saves another one. -/
  | enter {count : Nat} {function callee : FunctionId} {native : Native} {this : CellId}
    {receiver? : Option CellId} {arguments : List CellId} {middle : Machine}
    (executes : configuration.Executes) (calls : configuration.machine.Calls count function)
    (kind : (configuration.machine.heap.function function).native = some native)
    (found : receiver (configuration.machine.ready count function) =
      .ok this (configuration.machine.ready count function))
    (hosted : callHost native (some this) (configuration.machine.argumentCells count)
      (configuration.machine.ready count function) =
        .ok (.enter callee receiver? arguments) middle) :
    NeedsFrames configuration (configuration.machine.frames.size + 2)

/-- The next move needs a frame more than the limit allows. -/
def Exceeds (limit : Int64) (configuration : Configuration) : Prop :=
  ∃ height, configuration.NeedsFrames height ∧ limit.toInt < height

/-! ### Moves within the limit -/

/-- Arguments and a callee can be taken only from enough operands. -/
theorem lt_of_popped {machine taken popped : Machine} {count : Nat} {arguments : List CellId}
    {callee : Operand} (popping : popOnto count [] machine = .ok arguments taken)
    (pops : pop taken = .ok callee popped) : count < machine.operands.size := by
  rcases Nat.lt_or_ge machine.operands.size count with short | enough
  · obtain ⟨fault, operands, fails⟩ := popOnto_of_lt short []
    cases fails.symm.trans popping
  · cases (popOnto_of_le enough []).symm.trans popping
    obtain ⟨topmost, _⟩ := pop_eq_ok.mp pops
    refine Nat.lt_of_le_of_ne enough fun equal => ?_
    rw [← equal, Nat.sub_self] at topmost
    simp at topmost

theorem mirrors_call {machine : Machine} {pending : List Activation} {count : Nat}
    {instruction : Instruction CellId} (positive : 0 < limit) (unlimited : machine.limit ≤ 0)
    (executes : Executes ⟨machine, pending⟩) (present : machine.instruction? = some instruction)
    (isCall : instruction.opcode = .call) (kind : instruction.datum.kind = .number)
    (size : Number.size? instruction.datum.number = some count)
    (within : ¬ Exceeds limit ⟨machine, pending⟩) :
    Mirrors (.limiting limit) (call count) machine := by
  rcases Nat.lt_or_ge count machine.operands.size with room | short
  · have frames : (machine.calling count).frames.size = machine.frames.size + 1 :=
      Array.size_push _
    obtain ⟨callee, known, equal⟩ := call_of_room room
    obtain ⟨other, known', equal'⟩ :=
      call_of_room (show count < (machine.limitedTo limit).operands.size from room)
    cases known.symm.trans known'
    have dispatched : Mirrors (.limiting limit)
        (dispatch callee (machine.argumentCells count) machine.flags.construct)
        (machine.calling count) := by
      refine mirrors_dispatch positive (by exact unlimited) Array.back?_push _ ?_ ?_
      · refine Int.not_lt.mp fun exceeds =>
          within ⟨_, .call executes present isCall kind size room, ?_⟩
        rwa [frames] at exceeds
      · intro function native this entered receiver? passed middle content native' found hosted
        refine Int.not_lt.mp fun exceeds => within ⟨_, .enter executes
          ⟨⟨instruction, present, isCall, kind, size⟩, room, callee, known, content⟩ native' found
          hosted, ?_⟩
        rw [frames] at exceeds
        dsimp only
        omega
    unfold Mirrors
    rw [equal, disguised_limiting, equal']
    exact dispatched
  · -- Without enough operands nothing is called.
    refine .bind (mirrors_popOnto count []) fun arguments taken popping =>
      .bind mirrors_pop fun callee popped pops => ?_
    exact absurd (lt_of_popped popping pops) (Nat.not_lt_of_le short)

theorem mirrors_execute {machine : Machine} {pending : List Activation}
    {instruction : Instruction CellId} (positive : 0 < limit) (unlimited : machine.limit ≤ 0)
    (executes : Executes ⟨machine, pending⟩) (present : machine.instruction? = some instruction)
    (within : ¬ Exceeds limit ⟨machine, pending⟩) :
    Mirrors (.limiting limit) (execute instruction) machine := by
  by_cases isCall : instruction.opcode = .call
  · unfold execute
    rw [isCall]
    rcases countOf_cases instruction.datum with ⟨kind, size, equal⟩ | ⟨malformation, equal⟩
    · rw [equal]
      exact mirrors_call positive unlimited executes present isCall kind size within
    · rw [equal]
      exact .bind (mirrors_malformed _) fun _ _ impossible => by cases impossible
  · rw [execute_of_noCall isCall]
    refine .bind ?_ fun _ _ _ => .pure _
    by_cases returns : instruction.opcode = .ret
    · rw [executePlain_of_ret returns]
      exact mirrors_ret
    · exact mirrors_executePlain (fits_limiting _) returns fun _ => mirrors_popReceiver

/-- A move is the same with a limit and without, however it ends, unless its configuration `Exceeds`
the limit. -/
theorem mirrors_advance {machine : Machine} {pending : List Activation} (positive : 0 < limit)
    (unlimited : machine.limit ≤ 0) (within : ¬ Exceeds limit ⟨machine, pending⟩) :
    Mirrors (.limiting limit) (advance pending) machine := by
  refine .get rfl ?_
  cases move : machine.nextMove pending with
  | finish => exact .pure _
  | leave => exact mirrors_unwind _ _
  | resume activation rest => exact mirrors_resume activation rest
  | execute =>
    refine .get rfl ?_
    cases present : machine.instruction? with
    | none => exact mirrors_malformed _
    | some instruction =>
      have executed := mirrors_execute positive unlimited move present within
      refine .bind (.tryCatch (.map Sum.inl executed) fun fault _ _ => ?_) fun flow _ _ => ?_
      · cases fault with
        | script fault => exact .pure _
        | malformed place malformation => exact .throw _
        | breakdown breakdown => exact .throw _
      · cases flow with
        | inl flow =>
          cases flow with
          | done => exact .bind mirrors_stepOver fun _ _ _ => .pure _
          | suspended activation => exact .pure _
        | inr fault => exact .get rfl (mirrors_unwind _ _)

theorem Moves.limited (moves : before.Moves after) (positive : 0 < limit)
    (unlimited : before.machine.limit ≤ 0) (within : ¬ before.Exceeds limit) :
    (before.limitedTo limit).Moves (after.limitedTo limit) :=
  (mirrors_advance positive unlimited within).of_ok moves

theorem Moves.sameLimit (moves : before.Moves after) : after.machine.limit = before.machine.limit :=
  congrArg Setting.limit moves.setting

theorem Moves.unlimited (moves : before.Moves after) (unlimited : before.machine.limit ≤ 0) :
    after.machine.limit ≤ 0 := by
  rw [moves.sameLimit]
  exact unlimited

/-- As long as no configuration `Exceeds` the limit, a machine that is `limitedTo` it passes through
the same configurations. -/
theorem Run.limited (run : Run first passed last) (positive : 0 < limit)
    (unlimited : first.machine.limit ≤ 0)
    (within : ∀ configuration ∈ passed, ¬ configuration.Exceeds limit) :
    Run (first.limitedTo limit) (passed.map (limitedTo limit)) (last.limitedTo limit) := by
  induction run with
  | done configuration => exact .done _
  | move moves rest inductionHypothesis =>
    obtain ⟨here, later⟩ := List.forall_mem_cons.mp within
    exact .move (moves.limited positive unlimited here)
      (inductionHypothesis (moves.unlimited unlimited) later)

/-! ### Moves that need a frame too many -/

/-- A native function that has a script function entered passes its own receiver on. -/
theorem receiver_of_hosted {native : Native} {receiver? given : Option CellId}
    {arguments passed : List CellId} {function : FunctionId} {machine middle : Machine}
    (hosted : callHost native given arguments machine = .ok (.enter function receiver? passed)
      middle) : receiver? = given := by
  induction arguments generalizing native machine with
  | nil =>
    unfold callHost at hosted
    obtain ⟨_, _, _, ended⟩ := bind_eq_ok.mp hosted
    cases ended
  | cons first rest inductionHypothesis =>
    unfold callHost at hosted
    split at hosted
    · obtain ⟨inner, prepared, _, ended⟩ := bind_eq_ok.mp hosted
      have ended := (get_bind _ _).symm.trans ended
      cases kind : (prepared.heap.function inner).native with
      | some other =>
        rw [kind] at ended
        exact inductionHypothesis ended
      | none =>
        rw [kind] at ended
        cases ended
        rfl
    · obtain ⟨_, _, _, ended⟩ := bind_eq_ok.mp hosted
      cases ended

theorem leavingFrame_of_script {Result : Type} {action : Action Result} {machine middle : Machine}
    {fault : ScriptFault} {frame : Frame}
    (failed : action machine = .error (.script fault) middle)
    (saved : middle.frames.back? = some frame) :
    ∃ final, leavingFrame action machine = .error (.script fault) final ∧
      final.frames = middle.frames.pop :=
  ⟨_, (tryCatch_of_error failed).trans (bind_of_ok (leaveFrame_of_some saved)), rfl⟩

/-- A native function that has a script function entered fails if its frame is `overLimit`, and the
frame of the call is left. -/
theorem callNative_of_overLimit {native : Native} {arguments passed : List CellId}
    {construct : Bool} {machine middle : Machine} {frame : Frame} {this : CellId}
    {receiver? : Option CellId} {function : FunctionId}
    (found : receiver machine = .ok this machine)
    (hosted : callHost native (some this) arguments machine =
      .ok (.enter function receiver? passed) middle)
    (exceeded : (middle.awaiting this).overLimit = true)
    (saved : machine.frames.back? = some frame) :
    ∃ final, callNative native arguments construct machine =
        .error (.script { cause := .frameLimit }) final ∧ final.frames = machine.frames.pop := by
  have frames : middle.frames = machine.frames := by rw [callHost_left (leftBy_of_ok hosted)]
  cases receiver_of_hosted hosted
  have refused : activate function (some this) passed (.call construct) middle =
      .error (.script { cause := .frameLimit }) middle := by
    rw [activate_some, if_pos exceeded]
  have failed : answered native this arguments construct machine =
      .error (.script { cause := .frameLimit }) middle :=
    (bind_of_ok hosted).trans (bind_of_error refused)
  obtain ⟨final, left, popped⟩ := leavingFrame_of_script failed (frames ▸ saved)
  refine ⟨final, ?_, popped.trans (congrArg Array.pop frames)⟩
  exact (bind_of_ok found).trans (bind_of_error left)

/-- A call whose own frame is one too many fails over the limit. -/
theorem execute_of_overLimit {machine : Machine} {instruction : Instruction CellId} {count : Nat}
    (positive : 0 < limit) (isCall : instruction.opcode = .call)
    (kind : instruction.datum.kind = .number)
    (size : Number.size? instruction.datum.number = some count)
    (room : count < machine.operands.size) (many : limit.toInt < machine.frames.size + 1) :
    ∃ final, execute instruction (machine.limitedTo limit) =
        .error (.script { cause := .frameLimit }) final ∧
      final.frames.size = machine.frames.size := by
  obtain ⟨callee, _, equal⟩ :=
    call_of_room (show count < (machine.limitedTo limit).operands.size from room)
  have exceeded : ((machine.limitedTo limit).calling count).overLimit = true :=
    (overLimit_calling positive machine count).trans (decide_eq_true many)
  refine ⟨_, (execute_of_call isCall kind size).trans
    (equal.trans (dispatch_of_overLimit exceeded Array.back?_push ..)), ?_⟩
  exact congrArg Array.size Array.pop_push

/-- Where a configuration `Exceeds` the limit, its instruction fails over it and leaves the frames
as many as they were. -/
theorem Exceeds.execute_eq (exceeds : before.Exceeds limit) (positive : 0 < limit) :
    before.Executes ∧ ∃ instruction final, before.machine.instruction? = some instruction ∧
      execute instruction (before.machine.limitedTo limit) =
        .error (.script { cause := .frameLimit }) final ∧
      final.frames.size = before.machine.frames.size := by
  obtain ⟨height, needs, many⟩ := exceeds
  cases needs with
  | @call instruction _ executes present isCall kind size room =>
    obtain ⟨final, fails, frames⟩ :=
      execute_of_overLimit positive isCall kind size room (by omega)
    exact ⟨executes, instruction, final, present, fails, frames⟩
  | @enter count function callee native this receiver? arguments middle executes calls kind found
      hosted =>
    obtain ⟨instruction, present, isCall, number, size⟩ := calls.instruction
    refine ⟨executes, instruction, ?_⟩
    by_cases few : limit.toInt < before.machine.frames.size + 1
    · obtain ⟨final, fails, frames⟩ :=
        execute_of_overLimit positive isCall number size calls.room few
      exact ⟨final, present, fails, frames⟩
    · -- The frame of the call fits, and the one of the script function does not.
      obtain ⟨cell, known, content⟩ := calls.callee
      obtain ⟨other, known', equal⟩ :=
        call_of_room (show count < (before.machine.limitedTo limit).operands.size from calls.room)
      cases known.symm.trans known'
      have under : ((before.machine.limitedTo limit).calling count).overLimit = false :=
        (overLimit_calling positive before.machine count).trans (decide_eq_false few)
      have callable : (((before.machine.limitedTo limit).calling count).heap.content
          cell).callable? = some function := by
        change (before.machine.heap.content cell).callable? = some function
        rw [content]
        rfl
      have dispatched := dispatch_of_callable under callable
        ((before.machine.limitedTo limit).argumentCells count)
        (before.machine.limitedTo limit).flags.construct
      rw [show (((before.machine.limitedTo limit).calling count).heap.function function).native = _
        from kind] at dispatched
      have exceeded : ((middle.limitedTo limit).awaiting this).overLimit = true := by
        rw [overLimit_awaiting positive, (callHost_ready hosted).1, Array.size_push,
          decide_eq_true_iff]
        omega
      obtain ⟨final, fails, popped⟩ := callNative_of_overLimit
        ((mirrors_receiver (fits_limiting _)).of_ok found)
        ((mirrors_callHost native (some this) _).of_ok hosted) exceeded Array.back?_push
      refine ⟨final, present, ?_, ?_⟩
      · exact (execute_of_call isCall number size).trans (equal.trans (dispatched.trans fails))
      · rw [popped]
        exact congrArg Array.size Array.pop_push

/-- Where a configuration `Exceeds` the limit, the run fails over it. -/
theorem Exceeds.advance_eq (exceeds : before.Exceeds limit) (positive : 0 < limit)
    (orderly : before.Orderly) :
    ∃ fault final, fault.cause = .frameLimit ∧
      advance before.pending (before.machine.limitedTo limit) = .error (.script fault) final := by
  obtain ⟨executes, instruction, middle, present, fails, frames⟩ := exceeds.execute_eq positive
  obtain ⟨fault, final, unwinds, _⟩ := unwind_eq
    (ScriptFault.passing { cause := .frameLimit } ⟨middle.current, instruction.opcode⟩)
    orderly.waiting (frames ▸ orderly.length_le)
  refine ⟨fault, final, cause_of_unwind unwinds, ?_⟩
  have limited : (before.limitedTo limit).Executes := executes
  exact limited.advance_eq.trans ((executeNext_of_script (by exact present) fails).trans unwinds)

/-! ### The number of frames -/

theorem frames_le_of_activate {machine final : Machine} {function : FunctionId}
    {receiver? : Option CellId} {arguments : List CellId} {waiting : Waiting} {made : Activation}
    (limited : 0 < machine.limit)
    (ends : activate function receiver? arguments waiting machine = .ok made final) :
    (final.frames.size : Int) ≤ machine.limit.toInt := by
  rw [(activate_eq_ok ends).2.frames, Array.size_push]
  rcases activate_cases function receiver? arguments waiting machine with ⟨this, equal⟩ | broken
  · rw [equal, activate_some] at ends
    split at ends
    · cases ends
    · rename_i under
      have within := frames_le_of_not_overLimit (by exact limited) under
      simpa [awaiting] using within
  · cases broken.symm.trans ends

/-- A call that succeeds has saved no frame too many. -/
theorem frames_le_of_call {machine final : Machine} {count : Nat} {flow : Flow}
    (limited : 0 < machine.limit) (ends : call count machine = .ok flow final) :
    (final.frames.size : Int) ≤ machine.limit.toInt := by
  obtain ⟨room, callee, function, known, content, ways⟩ := call_eq_ok ends
  obtain ⟨other, _, equal⟩ := call_of_room room
  have saved : (machine.calling count).frames.back? = some (machine.callFrame count) :=
    Array.back?_push
  have under : ¬ (machine.calling count).overLimit = true := by
    intro exceeded
    cases (equal.trans (dispatch_of_overLimit exceeded saved ..)).symm.trans ends
  have within : ((machine.ready count function).frames.size : Int) ≤ machine.limit.toInt :=
    frames_le_of_not_overLimit (by exact limited) under
  rcases ways with ⟨_, _, entering⟩ | ⟨native, _, calling⟩
  · rw [(enter_eq_ok entering).2.frames]
    exact within
  · obtain ⟨this, _, ⟨result, middle, hosted, finishing, _⟩ |
      ⟨callee, receiver?, passed, middle, made, hosted, activating, _⟩⟩ := callNative_eq_ok calling
    · have frames : middle.frames = (machine.ready count function).frames := by
        rw [callHost_left (leftBy_of_ok hosted)]
      cases (finishNative_of_some _ result (frames ▸ saved)).symm.trans finishing
      change (middle.frames.pop.size : Int) ≤ _
      rw [Array.size_pop, frames]
      omega
    · have limit : middle.limit = machine.limit := by
        rw [callHost_left (leftBy_of_ok hosted)]
        rfl
      rw [← limit]
      exact frames_le_of_activate (limit ▸ limited) activating

/-- No move makes more frames than the limit allows. -/
theorem Moves.frames_le (moves : before.Moves after) (limited : 0 < before.machine.limit)
    (within : (before.machine.frames.size : Int) ≤ before.machine.limit.toInt) :
    (after.machine.frames.size : Int) ≤ before.machine.limit.toInt := by
  have calling {count : Nat} {function : FunctionId} (executes : before.Executes)
      (calls : before.machine.Calls count function) :
      (after.machine.frames.size : Int) ≤ before.machine.limit.toInt := by
    obtain ⟨flow, middle, ends, ⟨_, rfl⟩ | ⟨_, _, rfl⟩⟩ := moves.exists_call executes calls
    · rw [frames_stepped]
      exact frames_le_of_call limited ends
    · exact frames_le_of_call limited ends
  have shrinking (frames : after.machine.frames.size ≤ before.machine.frames.size) :
      (after.machine.frames.size : Int) ≤ before.machine.limit.toInt := by
    omega
  cases moves.step with
  | plain executes present noReturn noCall alike spares =>
    exact shrinking (Nat.le_of_eq (congrArg Array.size alike.frames))
  | native executes calls kind hosted => exact calling executes calls
  | ret executes present returns topmost saved =>
    refine shrinking ?_
    rw [frames_stepped]
    exact (Array.size_pop).trans_le (Nat.sub_le _ _)
  | enter executes calls script entered => exact calling executes calls
  | suspend executes calls kind hosted activated => exact calling executes calls
  | resume reached waits topmost enough saved =>
    refine shrinking ?_
    rw [frames_stepped]
    exact (Array.size_pop).trans_le (Nat.sub_le _ _)

theorem Run.frames_le (run : Run first passed last) (limited : 0 < first.machine.limit)
    (within : (first.machine.frames.size : Int) ≤ first.machine.limit.toInt) :
    ∀ configuration ∈ passed ++ [last],
      (configuration.machine.frames.size : Int) ≤ first.machine.limit.toInt := by
  induction run with
  | done configuration =>
    intro other member
    cases List.mem_singleton.mp member
    exact within
  | move moves rest inductionHypothesis =>
    have later := inductionHypothesis (moves.sameLimit ▸ limited)
      (moves.sameLimit ▸ moves.frames_le limited within)
    rw [moves.sameLimit] at later
    exact List.forall_mem_cons.mpr ⟨within, later⟩

/-! ### Whole runs -/

/-- If no configuration ever `Exceeds` the limit, a `loop` with a limit is the loop without. -/
theorem loop_limitedTo {machine : Machine} {pending : List Activation} (positive : 0 < limit)
    (unlimited : machine.limit ≤ 0)
    (within : ∀ passed last, Run ⟨machine, pending⟩ passed last → ¬ last.Exceeds limit)
    (fuel : Nat) (view : View) :
    loop observe fuel pending view (machine.limitedTo limit) =
      Prod.map id (Prod.map id (Machine.limitedTo limit))
        (loop (fun machine => observe (machine.limitedTo limit)) fuel pending view machine) := by
  induction fuel generalizing machine pending view with
  | zero => rfl
  | succ fuel inductionHypothesis =>
    have mirrors := mirrors_advance positive unlimited (within [] _ (.done _))
    rw [loop, loop]
    have about : (machine.limitedTo limit).aboutToExecute pending =
        machine.aboutToExecute pending := rfl
    rw [about]
    cases advanced : advance pending machine with
    | ok progress middle =>
      rw [show advance pending (machine.limitedTo limit) = _ from mirrors.of_ok advanced]
      cases progress with
      | finished result => rfl
      | running later =>
        have moves : Moves ⟨machine, pending⟩ ⟨middle, later⟩ := advanced
        exact inductionHypothesis (moves.unlimited unlimited)
          (fun passed last run => within _ last (.move moves run)) _
    | error fault middle =>
      rw [show advance pending (machine.limitedTo limit) = _ from mirrors.of_error advanced]
      rfl

theorem run_limitedTo {machine : Machine} (positive : 0 < limit) (unlimited : machine.limit ≤ 0)
    (within : ∀ passed last, Run ⟨machine, []⟩ passed last → ¬ last.Exceeds limit)
    (fuel : Nat) (view : View) :
    Machine.run observe fuel view (machine.limitedTo limit) =
      Prod.map id (Prod.map id (Machine.limitedTo limit))
        (Machine.run (fun machine => observe (machine.limitedTo limit)) fuel view machine) := by
  unfold Machine.run
  rw [loop_limitedTo positive unlimited within]
  rcases loop (fun machine => observe (machine.limitedTo limit)) fuel [] view machine with
    ⟨outcome, shown, final⟩
  cases outcome with
  | finished result => rfl
  | outOfFuel => rfl
  | failed fault =>
    cases fault with
    | script fault =>
      dsimp only [Prod.map, id]
      by_cases left : fault.cause = .leave
      · rw [if_pos left, if_pos left]
        rfl
      · rw [if_neg left, if_neg left]
    | malformed place malformation => rfl
    | breakdown breakdown => rfl

/-- A run that comes to a configuration that `Exceeds` the limit fails there. -/
theorem Run.fails_overLimit {machine : Machine} (run : Run ⟨machine, []⟩ passed last)
    (positive : 0 < limit) (unlimited : machine.limit ≤ 0)
    (within : ∀ configuration ∈ passed, ¬ configuration.Exceeds limit)
    (exceeds : last.Exceeds limit) :
    ∃ fault final, fault.cause = .frameLimit ∧
      ∀ {View : Type} (observe : Machine → View → View) (view : View) (fuel : Nat),
        passed.length < fuel → Machine.run observe fuel view (machine.limitedTo limit) =
          (.failed (.script fault), seen observe ((passed ++ [last]).map (limitedTo limit)) view,
            final) := by
  have limited := run.limited positive unlimited within
  obtain ⟨fault, final, cause, fails⟩ :=
    exceeds.advance_eq positive (run.orderly (orderly_start machine))
  refine ⟨fault, final, cause, fun {View} observe view fuel enough => ?_⟩
  obtain ⟨more, rfl⟩ : ∃ more, fuel = (passed.map (limitedTo limit)).length + (more + 1) :=
    ⟨fuel - passed.length - 1, by rw [List.length_map]; omega⟩
  have looped : loop observe _ [] view (machine.limitedTo limit) = _ :=
    limited.loop_eq (more + 1) view
  have shows : seen observe ((passed ++ [last]).map (limitedTo limit)) view =
      (last.limitedTo limit).shown observe (seen observe (passed.map (limitedTo limit)) view) := by
    unfold seen
    rw [List.map_append, List.foldl_append]
    rfl
  have other : fault.cause ≠ .leave := by
    rw [cause]
    exact Cause.noConfusion
  unfold Machine.run
  rw [looped, loop, shows, show advance (last.limitedTo limit).pending
    (last.limitedTo limit).machine = _ from fails]
  exact if_neg other

/-- The limit of frames is exact, and it changes nothing else. With at most that many frames to
start with, a machine that is `Machine.limitedTo` the limit never has more. It passes through the
same configurations as the machine without a limit up to the first that `Exceeds` it, whose move
needs a frame too many, and fails there over the limit; if there is no such configuration, the two
runs are the same to the end. -/
theorem frameLimit_exact {machine : Machine} (positive : 0 < limit) (unlimited : machine.limit ≤ 0)
    (room : (machine.frames.size : Int) ≤ limit.toInt) :
    (∀ passed last, Run ⟨machine.limitedTo limit, []⟩ passed last →
      ∀ configuration ∈ passed ++ [last],
        (configuration.machine.frames.size : Int) ≤ limit.toInt) ∧
    (∀ passed last, Run ⟨machine, []⟩ passed last →
      (∀ configuration ∈ passed, ¬ configuration.Exceeds limit) →
      Run ⟨machine.limitedTo limit, []⟩ (passed.map (limitedTo limit)) (last.limitedTo limit) ∧
      (last.Exceeds limit → ∃ fault final, fault.cause = .frameLimit ∧
        ∀ {View : Type} (observe : Machine → View → View) (view : View) (fuel : Nat),
          passed.length < fuel → Machine.run observe fuel view (machine.limitedTo limit) =
            (.failed (.script fault), seen observe ((passed ++ [last]).map (limitedTo limit)) view,
              final))) ∧
    ((∀ passed last, Run ⟨machine, []⟩ passed last → ¬ last.Exceeds limit) →
      ∀ {View : Type} (observe : Machine → View → View) (fuel : Nat) (view : View),
        Machine.run observe fuel view (machine.limitedTo limit) =
          Prod.map id (Prod.map id (Machine.limitedTo limit))
            (Machine.run (fun machine => observe (machine.limitedTo limit)) fuel view machine)) :=
  ⟨fun _ _ run => run.frames_le positive room,
    fun _ _ run within => ⟨run.limited positive unlimited within,
      run.fails_overLimit positive unlimited within⟩,
    fun within _ _ => run_limitedTo positive unlimited within⟩

/-- A machine without a limit that is about to have a function entered through a native one, which
needs two frames. -/
def sampleInvoke : Machine :=
  { heap :=
      { cells := #[{ content := .function ⟨0⟩ }, { content := .function ⟨1⟩ }]
        functions := #[{ native := some .invoke }, { entry := 1 }] }
    scopes := { receiver := ⟨0⟩ }
    code := #[{ opcode := .call, datum := { kind := .number, number := 1 } },
      { opcode := .push, datum := { kind := .null } }, { opcode := .ret }]
    stop := 3
    operands := #[{ cell := ⟨0⟩ }, { cell := ⟨1⟩ }] }

theorem frameLimit_exact_sample :
    ∃ fault final, fault.cause = .frameLimit ∧
      Machine.run (fun _ count => count + 1) 10 0 (sampleInvoke.limitedTo 1) =
        (.failed (.script fault), 1, final) := by
  have calls : sampleInvoke.Calls 1 ⟨0⟩ := ⟨⟨_, rfl, rfl, rfl, rfl⟩, by decide, ⟨0⟩, rfl, rfl⟩
  have exceeds : Exceeds 1 ⟨sampleInvoke, []⟩ := ⟨2, .enter rfl calls rfl rfl rfl, by decide⟩
  have start : (0 : Int64) < 1 ∧ sampleInvoke.limit ≤ 0 ∧
      (sampleInvoke.frames.size : Int) ≤ (1 : Int64).toInt := by decide
  obtain ⟨_, overLimit⟩ :=
    (frameLimit_exact start.1 start.2.1 start.2.2).2.1 [] _ (.done _) (by simp)
  obtain ⟨fault, final, cause, fails⟩ := overLimit exceeds
  exact ⟨fault, final, cause, fails _ 0 10 (by decide)⟩

end Configuration

end ScriptEngine
