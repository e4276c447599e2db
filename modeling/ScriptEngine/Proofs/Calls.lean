/-
This file works out calls and returns. Returning from a call, finishing a native call and
resuming a suspended one are given as the machine they lead to. Entering a script function is
given by what it keeps: it opens one scope, and neither the scopes below nor the stacks are
touched below what the call itself has taken. A call is first brought to the point where its
arguments are off the stack and its frame is saved.
-/

import ScriptEngine.Proofs.Plain

namespace ScriptEngine

open Relation

/-! ### Scopes -/

namespace Scopes

/-- At most the innermost scope has changed. -/
structure Retains (before after : Scopes) : Prop where
  outer : after.opened.tail = before.opened.tail
  depth : after.depth = before.depth
  globals : 0 < before.depth → after.globals = before.globals
  receiver : after.receiver = before.receiver

/-- One scope has been opened. -/
structure Opens (before after : Scopes) : Prop where
  outer : after.opened.tail = before.opened
  depth : after.depth = before.depth + 1
  globals : after.globals = before.globals
  receiver : after.receiver = before.receiver

theorem Retains.refl (scopes : Scopes) : scopes.Retains scopes :=
  ⟨rfl, rfl, fun _ => rfl, rfl⟩

theorem Retains.trans {before middle after : Scopes} (first : before.Retains middle)
    (second : middle.Retains after) : before.Retains after where
  outer := second.outer.trans first.outer
  depth := second.depth.trans first.depth
  globals nested := (second.globals (first.depth ▸ nested)).trans (first.globals nested)
  receiver := second.receiver.trans first.receiver

theorem retains_bind (scopes : Scopes) (name : Text) (cell : CellId) :
    scopes.Retains (scopes.bind name cell) := by
  cases known : scopes.opened with
  | nil =>
    refine ⟨?_, depth_bind .., ?_, ?_⟩
    · simp [bind, known]
    · intro nested
      simp [depth, known] at nested
    · simp [bind, known]
  | cons inner outer =>
    refine ⟨?_, depth_bind .., ?_, ?_⟩ <;> simp [bind, known]

/-- Names have been bound in the innermost scope, and nothing else has changed. -/
def Declares : Scopes → Scopes → Prop :=
  ReflTransGen fun before after => ∃ name cell, after = before.bind name cell

theorem Declares.retains {before after : Scopes} (declares : before.Declares after) :
    before.Retains after := by
  induction declares with
  | refl => exact .refl _
  | tail _ bound inductionHypothesis =>
    obtain ⟨name, cell, rfl⟩ := bound
    exact inductionHypothesis.trans (retains_bind ..)

/-- What happens inside a scope that `Opens` has opened is no concern of those below. -/
theorem Opens.retains {before middle after : Scopes} (opens : before.Opens middle)
    (retains : middle.Retains after) : before.Opens after where
  outer := retains.outer.trans opens.outer
  depth := retains.depth.trans opens.depth
  globals := (retains.globals (by rw [opens.depth]; omega)).trans opens.globals
  receiver := retains.receiver.trans opens.receiver

theorem opens_push (scopes : Scopes) : scopes.Opens scopes.push :=
  ⟨rfl, rfl, rfl, rfl⟩

end Scopes

namespace Machine

variable {Result Next : Type}

/-! ### What quiet changes keep -/

/-- What no move of a run changes: the program, its bounds and the limits of the machine. -/
structure Setting where
  code : Array (Instruction CellId)
  start : Int64
  stop : Int64
  limit : Int64
  attached : Bool

/-- The setting of a machine. -/
def setting (machine : Machine) : Setting :=
  ⟨machine.code, machine.start, machine.stop, machine.limit, machine.attached⟩

/-- Frames, `setting` and all scopes but the innermost are the same. -/
structure Alike (before after : Machine) : Prop where
  frames : after.frames = before.frames
  setting : after.setting = before.setting
  scopes : before.scopes.Retains after.scopes

theorem Alike.trans {before middle after : Machine} (first : before.Alike middle)
    (second : middle.Alike after) : before.Alike after :=
  ⟨second.frames.trans first.frames, second.setting.trans first.setting,
    first.scopes.trans second.scopes⟩

theorem Quiet.alike {before after : Machine} (quiet : Quiet before after) : before.Alike after := by
  cases quiet with
  | binding name cell => exact ⟨rfl, rfl, Scopes.retains_bind ..⟩
  | _ => exact ⟨rfl, rfl, .refl _⟩

theorem alike_of_quiet {before after : Machine} (changes : ReflTransGen Quiet before after) :
    before.Alike after := by
  induction changes with
  | refl => exact ⟨rfl, rfl, .refl _⟩
  | tail _ quiet inductionHypothesis => exact inductionHypothesis.trans quiet.alike

theorem declares_of_quiet {before after : Machine} (changes : ReflTransGen Quiet before after) :
    before.scopes.Declares after.scopes := by
  induction changes with
  | refl => exact .refl
  | tail _ quiet inductionHypothesis =>
    cases quiet with
    | binding name cell => exact inductionHypothesis.tail ⟨name, _, rfl⟩
    | _ => exact inductionHypothesis

/-- However an action ends that is `Local`, it has only bound names in the innermost scope. -/
theorem Local.declares {taken popped : Nat} {action : Action Result} {machine : Machine}
    (judged : Local taken popped action machine) :
    machine.scopes.Declares (leftBy action machine).scopes :=
  declares_of_quiet judged.quiet

theorem Local.alike {taken popped : Nat} {action : Action Result} {machine final : Machine}
    {result : Result} (judged : Local taken popped action machine)
    (ends : action machine = .ok result final) : machine.Alike final := by
  have quiet := judged.quiet
  unfold Leads at quiet
  rw [leftBy_of_ok ends] at quiet
  exact alike_of_quiet quiet

theorem Local.alike_of_error {taken popped : Nat} {action : Action Result}
    {machine final : Machine} {fault : Fault} (judged : Local taken popped action machine)
    (ends : action machine = .error fault final) : machine.Alike final := by
  have quiet := judged.quiet
  unfold Leads at quiet
  rw [leftBy_of_error ends] at quiet
  exact alike_of_quiet quiet

/-! ### Frames -/

theorem popFrame_of_some {machine : Machine} {frame : Frame}
    (topmost : machine.frames.back? = some frame) :
    popFrame machine = .ok frame { machine with frames := machine.frames.pop } := by
  unfold popFrame
  rw [get_bind, topmost]
  rfl

theorem popFrame_of_none {machine : Machine} (empty : machine.frames.back? = none) :
    popFrame machine = .error (.malformed machine.place .noFrame) machine := by
  unfold popFrame
  rw [get_bind, empty]
  rfl

theorem leaveFrame_of_some {machine : Machine} {frame : Frame}
    (topmost : machine.frames.back? = some frame) :
    leaveFrame machine = .ok frame
      { machine with
        frames := machine.frames.pop
        flags := frame.flags
        operands := machine.operands.shrink frame.operandMark
        receivers := machine.receivers.shrink frame.receiverMark } := by
  unfold leaveFrame
  rw [bind_of_ok (popFrame_of_some topmost)]
  rfl

theorem leaveFrame_of_none {machine : Machine} (empty : machine.frames.back? = none) :
    leaveFrame machine = .error (.malformed machine.place .noFrame) machine := by
  unfold leaveFrame
  rw [bind_of_error (popFrame_of_none empty)]

theorem restore_of_some {machine : Machine} {frame : Frame}
    (topmost : machine.frames.back? = some frame) :
    restore machine = .ok frame
      { machine with
        frames := machine.frames.pop
        current := frame.pc
        flags := frame.flags
        operands := machine.operands.shrink frame.operandMark
        receivers := machine.receivers.shrink frame.receiverMark } := by
  unfold restore
  rw [bind_of_ok (popFrame_of_some topmost)]
  rfl

theorem setFlags_of_some {machine : Machine} (operand : Operand)
    (topmost : machine.operands.back? = some operand) :
    setFlags machine = .ok ()
      { machine with
        flags :=
          { zero := !(machine.heap.content operand.cell).truthy
            construct := machine.flags.construct } } := by
  unfold setFlags
  rw [bind_of_ok (top_of_some topmost)]
  rfl

/-! ### The end of a native call -/

/-- The machine behind a native call: its frame is gone, its result is the topmost operand, and
also the topmost receiver if it was a constructor call. -/
def nativeReturn (construct : Bool) (result : CellId) (frame : Frame) (machine : Machine) :
    Machine :=
  { machine with
    frames := machine.frames.pop
    operands := (machine.operands.shrink frame.operandMark).push { cell := result }
    receivers :=
      if construct then (machine.receivers.shrink frame.receiverMark).push result
      else machine.receivers.shrink frame.receiverMark
    flags :=
      { zero := !(machine.heap.content result).truthy
        construct := !construct && frame.flags.construct } }

theorem finishNative_of_some {machine : Machine} {frame : Frame} (construct : Bool)
    (result : CellId) (topmost : machine.frames.back? = some frame) :
    finishNative construct result machine =
      .ok () (nativeReturn construct result frame machine) := by
  unfold finishNative
  rw [bind_of_ok (leaveFrame_of_some topmost)]
  have pushed (receivers : Array CellId) (flags : Flags) :
      setFlags
        { machine with
          frames := machine.frames.pop
          flags
          operands := (machine.operands.shrink frame.operandMark).push { cell := result }
          receivers } = .ok ()
        { machine with
          frames := machine.frames.pop
          flags := { flags with zero := !(machine.heap.content result).truthy }
          operands := (machine.operands.shrink frame.operandMark).push { cell := result }
          receivers } :=
    setFlags_of_some { cell := result } Array.back?_push
  cases construct with
  | true => exact pushed _ _
  | false => exact pushed _ _

/-! ### Returning -/

/-- The receiver that a returning constructor call leaves to its caller. -/
def constructedCell (machine : Machine) (frame : Frame) : CellId :=
  machine.receivers[frame.receiverMark]?.getD (machine.receivers.back?.getD machine.scopes.receiver)

/-- The machine behind a return. -/
def scriptReturn (result : CellId) (frame : Frame) (machine : Machine) : Machine :=
  { machine with
    current := frame.pc
    frames := machine.frames.pop
    operands := (machine.operands.pop.shrink frame.operandMark).push { cell := result }
    receivers :=
      if frame.flags.construct then
        (machine.receivers.shrink frame.receiverMark).push (machine.constructedCell frame)
      else machine.receivers.shrink frame.receiverMark
    scopes := machine.scopes.pop
    flags := { zero := !(machine.heap.content result).truthy, construct := false } }

theorem receiver_of_attached {machine : Machine} (usable : machine.attached = true) :
    receiver machine = .ok (machine.receivers.back?.getD machine.scopes.receiver) machine := by
  unfold receiver
  rw [get_bind]
  cases machine.receivers.back? with
  | none =>
    dsimp only
    rw [if_pos usable]
    rfl
  | some cell => rfl

theorem constructed_of_attached {machine : Machine} (frame : Frame)
    (usable : machine.attached = true) :
    constructed frame machine = .ok (machine.constructedCell frame) machine := by
  unfold constructed constructedCell
  rw [get_bind]
  cases machine.receivers[frame.receiverMark]? with
  | none => exact receiver_of_attached usable
  | some cell => rfl

theorem ret_of_some {machine : Machine} {operand : Operand} {frame : Frame}
    (usable : machine.attached = true) (topmost : machine.operands.back? = some operand)
    (saved : machine.frames.back? = some frame) :
    ret machine = .ok () (scriptReturn operand.cell frame machine) := by
  have ending (receivers : Array CellId) (flags : Flags) :
      (do pushCell operand.cell; onScopes Scopes.pop; setFlags : Action Unit)
        { machine with
          frames := machine.frames.pop
          current := frame.pc
          flags
          operands := machine.operands.pop.shrink frame.operandMark
          receivers } = .ok ()
        { machine with
          frames := machine.frames.pop
          current := frame.pc
          flags :=
            { zero := !(machine.heap.content operand.cell).truthy, construct := flags.construct }
          operands := (machine.operands.pop.shrink frame.operandMark).push { cell := operand.cell }
          receivers
          scopes := machine.scopes.pop } := by
    refine (modify_bind _ _ _).trans ?_
    refine (bind_of_ok (onScopes_of_attached (by exact usable) _)).trans ?_
    exact setFlags_of_some { cell := operand.cell } Array.back?_push
  refine (bind_of_ok (pop_of_some topmost)).trans ?_
  refine (get_bind _ _).trans ?_
  dsimp only
  rw [saved]
  dsimp only
  unfold scriptReturn
  cases construct : frame.flags.construct with
  | true =>
    rw [if_pos rfl]
    refine (bind_of_ok (constructed_of_attached frame (by exact usable))).trans ?_
    refine (bind_of_ok (restore_of_some (by exact saved))).trans ?_
    exact ending _ _
  | false =>
    rw [if_neg Bool.false_ne_true]
    refine (bind_of_ok (restore_of_some (by exact saved))).trans ?_
    refine (ending _ _).trans ?_
    rw [construct]
    rfl

/-- Without a receiver and a scope store the machine breaks down. -/
theorem receiver_cases (machine : Machine) :
    (∃ cell, receiver machine = .ok cell machine) ∨
      receiver machine = .error (.breakdown .noScopes) machine := by
  unfold receiver
  rw [get_bind]
  cases machine.receivers.back? with
  | some cell => exact .inl ⟨cell, rfl⟩
  | none =>
    dsimp only
    split
    · exact .inl ⟨_, rfl⟩
    · exact .inr rfl

theorem constructed_eq_ok {machine final : Machine} {frame : Frame} {cell : CellId}
    (ends : constructed frame machine = .ok cell final) : final = machine := by
  unfold constructed at ends
  rw [get_bind] at ends
  cases known : machine.receivers[frame.receiverMark]? with
  | some made =>
    rw [known] at ends
    cases ends
    rfl
  | none =>
    rw [known] at ends
    rcases receiver_cases machine with ⟨this, found⟩ | broken
    · cases found.symm.trans ends
      rfl
    · cases broken.symm.trans ends

/-- A return that succeeds had a result, a frame and a scope store, and ends in `scriptReturn`. -/
theorem ret_eq_ok {machine final : Machine} (ends : ret machine = .ok () final) :
    ∃ operand frame, machine.attached = true ∧ machine.operands.back? = some operand ∧
      machine.frames.back? = some frame ∧ final = scriptReturn operand.cell frame machine := by
  obtain ⟨operand, popped, started, ended⟩ := bind_eq_ok.mp ends
  obtain ⟨topmost, rfl⟩ := pop_eq_ok.mp started
  have ended := (get_bind _ _).symm.trans ended
  dsimp only at ended
  cases saved : machine.frames.back? with
  | none =>
    rw [saved] at ended
    cases ended
  | some frame =>
    cases usable : machine.attached with
    | true =>
      refine ⟨operand, frame, rfl, topmost, rfl, ?_⟩
      cases (ret_of_some usable topmost saved).symm.trans ends
      rfl
    | false =>
      have refused (middle : Machine) (unusable : middle.attached = false) :
          (do pushCell operand.cell; onScopes Scopes.pop; setFlags : Action Unit) middle ≠
            .ok () final := by
        intro impossible
        have failed : (onScopes Scopes.pop >>= fun _ => setFlags)
            { middle with operands := middle.operands.push { cell := operand.cell } } =
              .error (.breakdown .noScopes) _ :=
          bind_of_error (onScopes_of_detached (by exact unusable) Scopes.pop)
        cases failed.symm.trans impossible
      rw [saved] at ended
      dsimp only at ended
      split at ended
      · obtain ⟨this, middle, built, ended⟩ := bind_eq_ok.mp ended
        cases constructed_eq_ok built
        have ended := (bind_of_ok (restore_of_some (by exact saved))).symm.trans ended
        exact absurd ended (refused _ usable)
      · have ended := (bind_of_ok (restore_of_some (by exact saved))).symm.trans ended
        exact absurd ended (refused _ usable)

/-! ### Entering a script function -/

/-- A script function has been entered: there is one scope more, and the stacks are at least what
they were. -/
structure Entered (before after : Machine) : Prop where
  frames : after.frames = before.frames
  setting : after.setting = before.setting
  spares : Spares 0 0 before after
  scopes : before.scopes.Opens after.scopes

theorem pushNewReceiver_eq (function : FunctionId) (machine : Machine) :
    ∃ heap cell, ReflTransGen Heap.Change machine.heap heap ∧
      pushNewReceiver function machine =
        .ok () { machine with heap, receivers := machine.receivers.push cell } := by
  have built : Heap.Changes (do
      let cell ← Heap.allocateObject
      Heap.copyPrototype function ((← get).content cell)
      return cell) :=
    Heap.changes_bind Heap.changes_allocateObject fun _ => Heap.changes_get fun _ =>
      Heap.changes_bind (Heap.changes_copyPrototype _ _) fun _ => Heap.changes_pure _
  exact ⟨_, _, built machine.heap, rfl⟩

theorem local_bindParameters (names : List Text) (arguments : List CellId) (machine : Machine) :
    Local 0 0 (bindParameters names arguments) machine := by
  induction names generalizing arguments machine with
  | nil => exact .pure ()
  | cons name names inductionHypothesis =>
    unfold bindParameters
    cases arguments with
    | nil =>
      refine (bind_assoc _ _ _).subst (motive := fun action => Local 0 0 action machine) ?_
      exact .bind (local_bindNew name _ .undefined machine rfl) fun _ middle _ =>
        inductionHypothesis [] middle
    | cons argument rest =>
      refine (bind_assoc _ _ _).subst (motive := fun action => Local 0 0 action machine) ?_
      exact .bind (local_bindNew name _ (machine.heap.content argument) machine rfl)
        fun _ middle _ => inductionHypothesis rest middle

/-- Entering a function once its receiver is there leaves the machine `Entered`. -/
theorem enter_false_eq_ok {machine final : Machine} {function : FunctionId}
    {arguments : List CellId} (ends : enter function arguments false machine = .ok () final) :
    machine.attached = true ∧ machine.Entered final := by
  obtain ⟨_, opened, pushed, ended⟩ := bind_eq_ok.mp ends
  cases usable : machine.attached with
  | false => cases (onScopes_of_detached usable _).symm.trans pushed
  | true =>
    cases (onScopes_of_attached usable _).symm.trans pushed
    obtain ⟨_, bound, parameters, ended⟩ := bind_eq_ok.mp ((get_bind _ _).symm.trans ended)
    cases ended
    have judged := local_bindParameters _ _ _ |>.alike parameters
    have spared := (local_bindParameters _ _ _).spares _ _ parameters
    exact ⟨rfl, judged.frames, judged.setting, spared.congr rfl rfl rfl rfl,
      (Scopes.opens_push _).retains judged.scopes⟩

theorem enter_eq_ok {machine final : Machine} {function : FunctionId} {arguments : List CellId}
    {construct : Bool} (ends : enter function arguments construct machine = .ok () final) :
    machine.attached = true ∧ machine.Entered final := by
  cases construct with
  | false => exact enter_false_eq_ok ends
  | true =>
    obtain ⟨heap, cell, _, made⟩ := pushNewReceiver_eq function machine
    have rest : enter function arguments false _ = .ok () final :=
      (bind_of_ok made).symm.trans ends
    have entered := enter_false_eq_ok rest
    exact ⟨entered.1, entered.2.frames, entered.2.setting,
      (Spares.pushReceiver machine cell).trans (entered.2.spares.congr rfl rfl rfl rfl),
      entered.2.scopes⟩

theorem bindParameters_of_attached {machine : Machine} (usable : machine.attached = true)
    (names : List Text) (arguments : List CellId) :
    ∃ final, bindParameters names arguments machine = .ok () final := by
  induction names generalizing arguments machine with
  | nil => exact ⟨machine, rfl⟩
  | cons name names inductionHypothesis =>
    cases arguments with
    | nil =>
      unfold bindParameters
      dsimp only
      rw [onHeap_bind, bind_of_ok (onScopes_of_attached (by exact usable) _)]
      exact inductionHypothesis (by exact usable) _
    | cons argument others =>
      unfold bindParameters
      dsimp only
      rw [onHeap_bind, bind_of_ok (onScopes_of_attached (by exact usable) _)]
      exact inductionHypothesis (by exact usable) _

/-- With a scope store every script function can be entered. -/
theorem enter_of_attached {machine : Machine} (usable : machine.attached = true)
    (function : FunctionId) (arguments : List CellId) (construct : Bool) :
    ∃ final, enter function arguments construct machine = .ok () final := by
  have opened (middle : Machine) (attached : middle.attached = true) :
      ∃ final, enter function arguments false middle = .ok () final := by
    have pushed := onScopes_of_attached attached Scopes.push
    obtain ⟨bound, parameters⟩ := bindParameters_of_attached
      (show ({ middle with scopes := middle.scopes.push } : Machine).attached = true from attached)
      (middle.heap.function function).params arguments
    exact ⟨_, (bind_of_ok pushed).trans ((get_bind _ _).trans (bind_of_ok parameters))⟩
  cases construct with
  | false => exact opened machine usable
  | true =>
    obtain ⟨heap, cell, _, made⟩ := pushNewReceiver_eq function machine
    obtain ⟨final, rest⟩ := opened { machine with heap, receivers := machine.receivers.push cell }
      usable
    exact ⟨final, (bind_of_ok made).trans rest⟩

end Machine

end ScriptEngine
