/-
This file compares two machines that differ in their receivers, in their frames and in the limit
of frames. Most instructions do not look at any of them, so they do the same on both. The second
machine is a disguise of the first, and an action mirrors the disguise if it gives the same result
or the same fault on both and leaves a machine and its disguise. The judgement composes along a
sequence of actions; what is left to the user of a disguise is how it treats the few instructions
that do look.
-/

import ScriptEngine.Proofs.Dispatch

namespace ScriptEngine

/-- A change of the receivers, of the frames and of the limit of frames. -/
structure Disguise where
  receivers : Array CellId → Array CellId
  frames : Array Frame → Array Frame
  limit : Int64 → Int64

namespace Machine

variable {Result Next : Type} {disguise : Disguise} {machine : Machine}

/-- The machine under a disguise. -/
def disguised (disguise : Disguise) (machine : Machine) : Machine :=
  { machine with
    receivers := disguise.receivers machine.receivers
    frames := disguise.frames machine.frames
    limit := disguise.limit machine.limit }

/-- What an action comes to, with the machine it leaves under a disguise. -/
def mirrored (disguise : Disguise) :
    EStateM.Result Fault Machine Result → EStateM.Result Fault Machine Result
  | .ok result machine => .ok result (machine.disguised disguise)
  | .error fault machine => .error fault (machine.disguised disguise)

/-- An action does to a machine that is `disguised` what it does to the machine itself, `mirrored`.
-/
def Mirrors (disguise : Disguise) (action : Action Result) (machine : Machine) : Prop :=
  action (machine.disguised disguise) = mirrored disguise (action machine)

namespace Mirrors

theorem pure (result : Result) : Mirrors disguise (Pure.pure result : Action Result) machine :=
  rfl

theorem throw (fault : Fault) :
    Mirrors disguise (MonadExcept.throw fault : Action Result) machine :=
  rfl

theorem modify (change : Machine → Machine)
    (same : change (machine.disguised disguise) = (change machine).disguised disguise) :
    Mirrors disguise (modify change) machine :=
  congrArg (EStateM.Result.ok ()) same

theorem of_ok {action : Action Result} {result : Result} {final : Machine}
    (mirrors : Mirrors disguise action machine) (ends : action machine = .ok result final) :
    action (machine.disguised disguise) = .ok result (final.disguised disguise) := by
  rw [show action (machine.disguised disguise) = _ from mirrors, ends]
  rfl

theorem of_error {action : Action Result} {fault : Fault} {final : Machine}
    (mirrors : Mirrors disguise action machine) (ends : action machine = .error fault final) :
    action (machine.disguised disguise) = .error fault (final.disguised disguise) := by
  rw [show action (machine.disguised disguise) = _ from mirrors, ends]
  rfl

theorem bind {action : Action Result} {next : Result → Action Next}
    (first : Mirrors disguise action machine)
    (second : ∀ result middle, action machine = .ok result middle →
      Mirrors disguise (next result) middle) :
    Mirrors disguise (action >>= next) machine := by
  unfold Mirrors
  cases ends : action machine with
  | ok result middle =>
    rw [bind_of_ok (first.of_ok ends), bind_of_ok ends]
    exact second result middle ends
  | error fault middle =>
    rw [bind_of_error (first.of_error ends), bind_of_error ends]
    rfl

/-- What is read of the machine must not depend on the disguise, for the action to be one that
`Mirrors`. -/
theorem get {next : Machine → Action Next}
    (same : next (machine.disguised disguise) = next machine)
    (rest : Mirrors disguise (next machine) machine) :
    Mirrors disguise (MonadState.get >>= next) machine := by
  change next (machine.disguised disguise) (machine.disguised disguise) = _
  rw [same]
  exact rest

theorem map {action : Action Result} (change : Result → Next)
    (first : Mirrors disguise action machine) : Mirrors disguise (change <$> action) machine :=
  bind first fun result _ _ => pure (change result)

theorem tryCatch {action : Action Result} {handler : Fault → Action Result}
    (first : Mirrors disguise action machine)
    (second : ∀ fault middle, action machine = .error fault middle →
      Mirrors disguise (handler fault) middle) :
    Mirrors disguise (MonadExcept.tryCatch action handler) machine := by
  unfold Mirrors
  cases ends : action machine with
  | ok result middle =>
    rw [tryCatch_of_ok (first.of_ok ends), tryCatch_of_ok ends]
    rfl
  | error fault middle =>
    rw [tryCatch_of_error (first.of_error ends), tryCatch_of_error ends]
    exact second fault middle ends

end Mirrors

/-! ### Elementary moves -/

theorem mirrors_malformed (malformation : Malformation) :
    Mirrors disguise (malformed malformation : Action Result) machine :=
  rfl

theorem mirrors_onHeap (operation : StateM Heap Result) :
    Mirrors disguise (onHeap operation) machine :=
  rfl

theorem mirrors_contentOf (cell : CellId) : Mirrors disguise (contentOf cell) machine :=
  rfl

theorem mirrors_push (operand : Operand) : Mirrors disguise (push operand) machine :=
  rfl

theorem mirrors_pushCell (cell : CellId) : Mirrors disguise (pushCell cell) machine :=
  rfl

theorem mirrors_pushContent (content : Content) :
    Mirrors disguise (pushContent content) machine :=
  rfl

theorem mirrors_onScopes (change : Scopes → Scopes) :
    Mirrors disguise (onScopes change) machine := by
  refine .get rfl ?_
  split
  · exact .modify _ rfl
  · exact .throw _

theorem mirrors_top : Mirrors disguise top machine := by
  refine .get rfl ?_
  split
  · exact .pure _
  · exact mirrors_malformed _

theorem mirrors_pop : Mirrors disguise pop machine :=
  .bind mirrors_top fun operand _ _ => .bind (.modify _ rfl) fun _ _ _ => .pure operand

theorem mirrors_setFlags : Mirrors disguise setFlags machine :=
  .bind mirrors_top fun _ _ _ => .bind (mirrors_contentOf _) fun _ _ _ => .modify _ rfl

theorem mirrors_popOnto (count : Nat) (cells : List CellId) :
    Mirrors disguise (popOnto count cells) machine := by
  induction count generalizing cells machine with
  | zero => exact .pure cells
  | succ count inductionHypothesis => exact .bind mirrors_pop fun _ _ _ => inductionHypothesis _

theorem mirrors_stepOver : Mirrors disguise stepOver machine := by
  refine .modify _ ?_
  change (if machine.current = machine.stop then _ else _) = _
  split <;> rfl

/-- A change of the machine and going on with what it makes of it. -/
theorem mirrors_modify_bind {change : Machine → Machine} {next : Unit → Action Next}
    (same : change (machine.disguised disguise) = (change machine).disguised disguise)
    (rest : Mirrors disguise (next ()) (change machine)) :
    Mirrors disguise (modify change >>= next) machine := by
  refine .bind (.modify change same) fun _ middle ends => ?_
  cases ends
  exact rest

/-- Taking the topmost operand and going on with it `Mirrors` if going on does. -/
theorem Mirrors.pop {next : Operand → Action Next}
    (rest : ∀ operand, Mirrors disguise (next operand)
      { machine with operands := machine.operands.pop }) :
    Mirrors disguise (Machine.pop >>= next) machine := by
  refine .bind mirrors_pop fun operand middle ends => ?_
  obtain ⟨_, rfl⟩ := pop_eq_ok.mp ends
  exact rest operand

/-- A machine without a limit never has too many frames. -/
theorem overLimit_of_unlimited (unlimited : machine.limit ≤ 0) : machine.overLimit = false := by
  unfold overLimit
  rw [decide_eq_false (Int64.not_lt.mpr unlimited)]
  rfl

/-! ### Receivers -/

/-- A disguise that is not noticed on a machine: a receiver that is pushed is pushed on the
disguised receivers, and the current receiver is the same. -/
structure Fits (disguise : Disguise) (machine : Machine) : Prop where
  push : ∀ cell, disguise.receivers (machine.receivers.push cell) =
    (disguise.receivers machine.receivers).push cell
  top : (disguise.receivers machine.receivers).back? = machine.receivers.back? ∨
    (machine.attached = true ∧
      (disguise.receivers machine.receivers).back?.getD machine.scopes.receiver =
        machine.receivers.back?.getD machine.scopes.receiver)

/-- Whether a disguise `Fits` depends on the receivers and the scope store only. -/
theorem Fits.congr {other : Machine} (fits : machine.Fits disguise)
    (receivers : other.receivers = machine.receivers) (attached : other.attached = machine.attached)
    (receiver : other.scopes.receiver = machine.scopes.receiver) : other.Fits disguise := by
  refine ⟨?_, ?_⟩
  · rw [receivers]
    exact fits.push
  · rw [receivers, attached, receiver]
    exact fits.top

theorem mirrors_pushReceiver (fits : machine.Fits disguise) (cell : CellId) :
    Mirrors disguise (pushReceiver cell) machine := by
  refine .modify _ ?_
  unfold disguised
  dsimp only
  rw [fits.push]

theorem mirrors_receiver (fits : machine.Fits disguise) :
    Mirrors disguise receiver machine := by
  rcases fits.top with same | ⟨usable, same⟩
  · refine .get ?_ ?_
    · dsimp only [disguised]
      rw [same]
    · split
      · exact .pure _
      · split
        · exact .pure _
        · exact .throw _
  · unfold Mirrors
    rw [receiver_of_attached usable, receiver_of_attached (by exact usable)]
    exact congrArg (EStateM.Result.ok · _) same

/-! ### Instructions that neither call nor return -/

theorem mirrors_nameOf (datum : Datum CellId) : Mirrors disguise (nameOf datum) machine := by
  unfold nameOf
  split
  · exact .pure _
  · exact .pure _
  · exact mirrors_malformed _

/-- Reading a name and going on with it `Mirrors` if going on does. -/
theorem Mirrors.nameOf {datum : Datum CellId} {next : Text → Action Next}
    (rest : ∀ name, Mirrors disguise (next name) machine) :
    Mirrors disguise (Machine.nameOf datum >>= next) machine := by
  unfold Machine.nameOf
  split
  · exact rest _
  · exact rest _
  · exact .bind (mirrors_malformed _) fun _ _ impossible => by cases impossible

theorem mirrors_countOf (datum : Datum CellId) : Mirrors disguise (countOf datum) machine := by
  unfold countOf
  split
  · exact .pure _
  · exact mirrors_malformed _

theorem mirrors_literal (datum : Datum CellId) : Mirrors disguise (literal datum) machine := by
  unfold literal
  split
  · exact mirrors_onHeap _
  · exact mirrors_onHeap _
  · exact mirrors_onHeap _
  · exact mirrors_onHeap _
  · split
    · exact .pure _
    · exact mirrors_malformed _
  · exact mirrors_malformed _

theorem mirrors_fetch (fits : machine.Fits disguise) (name : Text) :
    Mirrors disguise (fetch name) machine := by
  unfold fetch
  split
  · exact .bind (mirrors_receiver fits) fun _ _ _ => .modify _ rfl
  · refine .get rfl ?_
    split
    · split
      · exact .modify _ rfl
      · exact .throw _
    · exact .throw _

theorem mirrors_declare (name : Text) : Mirrors disguise (declare name) machine :=
  .bind (mirrors_onHeap _) fun _ _ _ => mirrors_onScopes _

theorem mirrors_store : Mirrors disguise store machine := by
  refine .bind mirrors_pop fun target _ _ => .bind mirrors_pop fun source _ _ => ?_
  refine .bind (mirrors_contentOf _) fun content _ _ => .get rfl ?_
  split
  · exact .bind (mirrors_onHeap _) fun _ _ _ => .bind (mirrors_push _) fun _ _ _ => mirrors_setFlags
  · exact .bind (mirrors_push _) fun _ _ _ => mirrors_setFlags

theorem mirrors_increment (difference : Float) :
    Mirrors disguise (increment difference) machine := by
  refine .bind mirrors_pop fun operand _ _ => .get rfl ?_
  dsimp only
  split
  · exact .bind (mirrors_onHeap _) fun _ _ _ =>
      .bind (mirrors_pushCell _) fun _ _ _ => mirrors_setFlags
  · exact .bind (mirrors_pushContent _) fun _ _ _ => mirrors_setFlags

theorem mirrors_incrementAfter (difference : Float) :
    Mirrors disguise (incrementAfter difference) machine := by
  refine .bind mirrors_pop fun operand _ _ => .get rfl ?_
  dsimp only
  split
  · exact .bind (mirrors_onHeap _) fun _ _ _ =>
      .bind (mirrors_pushContent _) fun _ _ _ => mirrors_setFlags
  · exact .bind (mirrors_pushContent _) fun _ _ _ => mirrors_setFlags

theorem mirrors_negate (negation : Int32 → Content) :
    Mirrors disguise (negate negation) machine := by
  refine .bind mirrors_pop fun operand _ _ => .get rfl ?_
  dsimp only
  split
  · exact .bind (mirrors_pushContent _) fun _ _ _ => mirrors_setFlags
  · exact .bind (mirrors_pushContent _) fun _ _ _ => mirrors_setFlags

theorem mirrors_applyBinary (operator : BinaryOperator) :
    Mirrors disguise (applyBinary operator) machine :=
  .bind mirrors_pop fun _ _ _ => .bind mirrors_pop fun _ _ _ => .get rfl
    (.bind (mirrors_pushContent _) fun _ _ _ => mirrors_setFlags)

theorem mirrors_popProperties (count : Nat) :
    Mirrors disguise (popProperties count) machine := by
  refine .get rfl ?_
  dsimp only
  split
  · exact mirrors_malformed _
  · split
    · exact .throw _
    · exact .bind (mirrors_onHeap _) fun _ _ _ => .bind (.modify _ rfl) fun _ _ _ =>
        .bind (mirrors_pushCell _) fun _ _ _ => mirrors_setFlags

theorem mirrors_replaceByProperty (fits : machine.Fits disguise) (datum : Datum CellId) :
    Mirrors disguise (replaceByProperty datum) machine := by
  refine .pop fun operand =>
    .bind (mirrors_pushReceiver (by exact fits.congr rfl rfl rfl) _) fun _ _ _ => ?_
  exact .bind (mirrors_nameOf datum) fun _ _ _ => .bind (mirrors_contentOf _) fun _ _ _ =>
    .bind (mirrors_onHeap _) fun _ _ _ => .bind (mirrors_pushCell _) fun _ _ _ => mirrors_setFlags

theorem mirrors_replaceByElement (fits : machine.Fits disguise) :
    Mirrors disguise replaceByElement machine := by
  refine .pop fun index => .pop fun collection => .get rfl ?_
  refine .bind (mirrors_onHeap _) fun property middle ends => ?_
  cases ends
  exact mirrors_modify_bind rfl
    (.bind (mirrors_pushReceiver (by exact fits.congr rfl rfl rfl) _) fun _ _ _ => mirrors_setFlags)

theorem mirrors_moveIntoArray (array : ArrayId) (count : Nat) :
    Mirrors disguise (moveIntoArray array count) machine := by
  induction count generalizing machine with
  | zero => exact .pure ()
  | succ position inductionHypothesis =>
    exact .bind mirrors_pop fun _ _ _ => .bind (mirrors_onHeap _) fun _ _ _ => inductionHypothesis

theorem mirrors_fillAccumulator (datum : Datum CellId) :
    Mirrors disguise (fillAccumulator datum) machine := by
  refine .get rfl ?_
  split
  · exact .bind (mirrors_countOf datum) fun _ _ _ => mirrors_moveIntoArray _ _
  · exact mirrors_malformed _

theorem mirrors_setKey (datum : Datum CellId) : Mirrors disguise (setKey datum) machine :=
  .bind mirrors_top fun _ _ _ => .bind (mirrors_nameOf datum) fun _ _ _ => .modify _ rfl

/-- An instruction that neither calls nor returns, `executePlain`, does the same under a disguise
that `Fits`, if taking a receiver does. -/
theorem mirrors_executePlain {instruction : Instruction CellId} (fits : machine.Fits disguise)
    (noReturn : instruction.opcode ≠ .ret)
    (takes : instruction.opcode = .pushthis → Mirrors disguise popReceiver machine) :
    Mirrors disguise (executePlain instruction) machine := by
  obtain ⟨opcode, offset, datum⟩ := instruction
  unfold executePlain
  cases opcode with
  | ret => exact absurd rfl noReturn
  | noop | loopz => exact .pure ()
  | fetch => exact .nameOf fun name => mirrors_fetch fits name
  | store => exact mirrors_store
  | push =>
    exact .bind (mirrors_literal datum) fun _ _ _ =>
      .bind (mirrors_pushCell _) fun _ _ _ => mirrors_setFlags
  | pushim =>
    refine .get rfl ?_
    split
    · exact .bind (mirrors_pushCell _) fun _ _ _ => mirrors_setFlags
    · exact mirrors_malformed _
  | poprop => exact .bind (mirrors_countOf datum) fun _ _ _ => mirrors_popProperties _
  | replprop => exact mirrors_replaceByProperty fits datum
  | index => exact mirrors_replaceByElement fits
  | res =>
    exact .bind (mirrors_countOf datum) fun _ _ _ => .bind (mirrors_onHeap _) fun _ _ _ =>
      .modify _ rfl
  | news => exact .bind (mirrors_nameOf datum) fun name _ _ => mirrors_declare name
  | cpya => exact mirrors_fillAccumulator datum
  | maps => exact mirrors_setKey datum
  | jmp => exact .modify _ rfl
  | jmpz | jmpnz =>
    refine .get rfl ?_
    split
    · exact .modify _ rfl
    · exact .pure ()
  | leave => exact .modify _ rfl
  | markst => exact .modify _ rfl
  | pushthis => exact takes rfl
  | inc | dec => exact mirrors_increment _
  | pinc | pdec => exact mirrors_incrementAfter _
  | snot | bnot => exact mirrors_negate _
  | adds | subs | muls | divs | rems | lts | gts | ltes | gtes | eqs | neqs | shls | shrs | bors
  | bands | ors | ands | xors => exact mirrors_applyBinary _
  | call | unknown beyond => exact mirrors_malformed _

/-! ### Calls -/

theorem mirrors_callArray (arguments : List CellId) :
    Mirrors disguise (callArray arguments) machine := by
  refine .get rfl ?_
  dsimp only
  split
  · split
    · split
      · exact mirrors_onHeap _
      · exact .throw _
    · exact mirrors_onHeap _
  · exact mirrors_onHeap _

theorem mirrors_callAssertEqual (arguments : List CellId) :
    Mirrors disguise (callAssertEqual arguments) machine := by
  refine .get rfl ?_
  dsimp only
  split
  · split
    · exact mirrors_onHeap _
    · exact .throw _
  · exact .throw _

theorem mirrors_callPlain (native : Native) (arguments : List CellId) :
    Mirrors disguise (callPlain native arguments) machine := by
  unfold callPlain
  cases native with
  | print =>
    exact .get rfl (.bind (.modify _ rfl) fun _ _ _ => mirrors_onHeap _)
  | assertEqual => exact mirrors_callAssertEqual arguments
  | array => exact mirrors_callArray arguments
  | number | boolean => exact .get rfl (mirrors_onHeap _)
  | object => exact mirrors_onHeap _
  | echo => exact mirrors_onHeap _
  | invoke => exact .throw _

theorem mirrors_prepared (callee : CellId) : Mirrors disguise (prepared callee) machine := by
  refine .bind (mirrors_contentOf callee) fun content _ _ => ?_
  split
  · exact .bind (mirrors_onHeap _) fun _ _ _ => .pure _
  · exact .throw _

theorem mirrors_callHost (native : Native) (receiver? : Option CellId) (arguments : List CellId) :
    Mirrors disguise (callHost native receiver? arguments) machine := by
  induction arguments generalizing native machine with
  | nil =>
    unfold callHost
    exact .bind (mirrors_callPlain native []) fun _ _ _ => .pure _
  | cons first rest inductionHypothesis =>
    unfold callHost
    split
    · refine .bind (mirrors_prepared first) fun function _ _ => .get rfl ?_
      split
      · exact inductionHypothesis _
      · exact .pure _
    · exact .bind (mirrors_callPlain native _) fun _ _ _ => .pure _

theorem mirrors_bindParameters (names : List Text) (arguments : List CellId) :
    Mirrors disguise (bindParameters names arguments) machine := by
  induction names generalizing arguments machine with
  | nil => exact .pure ()
  | cons name names inductionHypothesis =>
    unfold bindParameters
    split
    · exact .bind (mirrors_onHeap _) fun _ _ _ =>
        .bind (mirrors_onScopes _) fun _ _ _ => inductionHypothesis _
    · exact .bind (mirrors_onHeap _) fun _ _ _ =>
        .bind (mirrors_onScopes _) fun _ _ _ => inductionHypothesis _

theorem mirrors_enter (fits : machine.Fits disguise) (function : FunctionId)
    (arguments : List CellId) (construct : Bool) :
    Mirrors disguise (enter function arguments construct) machine := by
  have opened (middle : Machine) : Mirrors disguise (do
      onScopes Scopes.push
      let body := (← get).heap.function function
      bindParameters body.params arguments
      modify fun machine => { machine with current := body.entry - 1 }) middle :=
    .bind (mirrors_onScopes _) fun _ _ _ => .get rfl
      (.bind (mirrors_bindParameters _ _) fun _ _ _ => .modify _ rfl)
  cases construct with
  | false => exact opened machine
  | true =>
    refine .bind (.bind (mirrors_onHeap _) fun cell made ends => ?_) fun _ middle _ =>
      opened middle
    cases ends
    exact mirrors_pushReceiver (by exact fits.congr rfl rfl rfl) _

end Machine

end ScriptEngine
