/-
This file is about the zero flag. Some instructions end with a test of the topmost operand, and all
others leave the flag alone. Calls and returns put back flags that were saved, so those that give a
result test it after that: a return, a native call that is over at once, and a native call whose
script function has returned in the meantime. A conditional jump behind any of them goes by the
truth of what it finds on top of the operand stack.
-/

import ScriptEngine.Proofs.Constructing
import ScriptEngine.Proofs.ControlTransfer
import ScriptEngine.Proofs.NativeCall

namespace ScriptEngine

/-- Whether an instruction with this opcode ends with a test of the topmost operand; calls are
apart, for it depends on the function. -/
def Opcode.retests : Opcode → Bool
  | .push | .pushim | .store | .poprop | .replprop | .index | .inc | .dec | .pinc | .pdec | .snot
  | .bnot | .ret => true
  | opcode => opcode.binaryOperator?.isSome

namespace Machine

variable {Result Next : Type}

/-- The zero flag is set exactly if the topmost operand, which there is, is falsy. -/
def ZeroTracks (machine : Machine) : Prop :=
  ∃ topmost, machine.operands.back? = some topmost ∧
    machine.flags.zero = !(machine.heap.content topmost.cell).truthy

theorem ZeroTracks.stepped {machine : Machine} (tracks : machine.ZeroTracks) :
    machine.stepped.ZeroTracks := by
  unfold ZeroTracks
  rw [operands_stepped, flags_stepped, heap_stepped]
  exact tracks

/-- The result of a native call is tested, so that the machine `ZeroTracks`, whatever the flag was
before it. -/
theorem zeroTracks_nativeReturn (construct : Bool) (result : CellId) (frame : Frame)
    (machine : Machine) : (nativeReturn construct result frame machine).ZeroTracks :=
  ⟨{ cell := result }, Array.back?_push, rfl⟩

/-! ### Actions that end with a test -/

/-- Where the action succeeds, the zero flag tells whether the topmost operand is falsy. -/
def Retests (action : Action Result) : Prop :=
  ∀ machine result final, action machine = .ok result final → final.ZeroTracks

namespace Retests

/-- Only the end of a sequence counts for whether it `Retests`. -/
theorem bind {action : Action Result} {next : Result → Action Next}
    (rest : ∀ result, Retests (next result)) : Retests (action >>= next) := by
  intro machine value final ends
  obtain ⟨result, middle, _, ended⟩ := bind_eq_ok.mp ends
  exact rest result middle value final ended

theorem malformed (malformation : Malformation) :
    Retests (Machine.malformed malformation : Action Result) := by
  rintro machine result final ⟨⟩

theorem raise (cause : Cause) : Retests (Machine.raise cause : Action Result) := by
  rintro machine result final ⟨⟩

theorem setFlags : Retests Machine.setFlags := by
  intro machine _ final ends
  obtain ⟨topmost, middle, found, ended⟩ := bind_eq_ok.mp ends
  obtain ⟨present, rfl⟩ := top_eq_ok.mp found
  cases ended
  exact ⟨topmost, present, rfl⟩

end Retests

theorem retests_increment (difference : Float) : Retests (increment difference) := by
  refine .bind fun operand => .bind fun machine => ?_
  dsimp only
  split
  · exact .bind fun _ => .bind fun _ => .setFlags
  · exact .bind fun _ => .setFlags

theorem retests_incrementAfter (difference : Float) : Retests (incrementAfter difference) := by
  refine .bind fun operand => .bind fun machine => ?_
  dsimp only
  split
  · exact .bind fun _ => .bind fun _ => .setFlags
  · exact .bind fun _ => .setFlags

theorem retests_negate (negation : Int32 → Content) : Retests (negate negation) := by
  refine .bind fun operand => .bind fun machine => ?_
  dsimp only
  split
  · exact .bind fun _ => .setFlags
  · exact .bind fun _ => .setFlags

/-- What is written through a cell is tested as it is once it is written: the store `Retests`. -/
theorem retests_store : Retests store := by
  refine .bind fun target => .bind fun source => .bind fun content => .bind fun machine => ?_
  split
  · exact .bind fun _ => .bind fun _ => .setFlags
  · exact .bind fun _ => .setFlags

theorem retests_popProperties (count : Nat) : Retests (popProperties count) := by
  refine .bind fun machine => ?_
  split
  · exact .malformed _
  · dsimp only
    split
    · exact .raise _
    · exact .bind fun _ => .bind fun _ => .bind fun _ => .setFlags

/-- The flags that a return puts back are those of the caller, so the test comes behind it: it
`Retests`. -/
theorem retests_ret : Retests ret := by
  intro machine _ final ends
  obtain ⟨operand, frame, _, _, _, rfl⟩ := ret_eq_ok ends
  exact ⟨{ cell := operand.cell }, Array.back?_push, rfl⟩

theorem retests_executePlain {instruction : Instruction CellId}
    (tests : instruction.opcode.retests = true) : Retests (executePlain instruction) := by
  obtain ⟨opcode, offset, datum⟩ := instruction
  unfold executePlain
  cases opcode with
  | noop | loopz | fetch | res | news | cpya | maps | jmp | jmpz | jmpnz | leave | markst | pushthis
  | call | unknown => cases tests
  | store => exact retests_store
  | push => exact .bind fun _ => .bind fun _ => .setFlags
  | pushim =>
    refine .bind fun machine => ?_
    split
    · exact .bind fun _ => .setFlags
    · exact .malformed _
  | poprop => exact .bind fun _ => retests_popProperties _
  | replprop =>
    exact .bind fun _ => .bind fun _ => .bind fun _ => .bind fun _ => .bind fun _ => .bind fun _ =>
      .setFlags
  | index =>
    exact .bind fun _ => .bind fun _ => .bind fun _ => .bind fun _ => .bind fun _ => .bind fun _ =>
      .setFlags
  | ret => exact retests_ret
  | inc | dec => exact retests_increment _
  | pinc | pdec => exact retests_incrementAfter _
  | snot | bnot => exact retests_negate _
  | adds | subs | muls | divs | rems | lts | gts | ltes | gtes | eqs | neqs | shls | shrs | bors
  | bands | ors | ands | xors =>
    exact .bind fun _ => .bind fun _ => .bind fun _ => .bind fun _ => .setFlags

/-! ### Actions that leave the flag alone -/

/-- Where the action succeeds, the zero flag is what it was. -/
def SparesZero (action : Action Result) : Prop :=
  ∀ machine result final, action machine = .ok result final →
    final.flags.zero = machine.flags.zero

namespace SparesZero

theorem pure (result : Result) : SparesZero (Pure.pure result : Action Result) := by
  rintro machine _ _ ⟨⟩
  rfl

theorem throw (fault : Fault) : SparesZero (MonadExcept.throw fault : Action Result) := by
  rintro machine _ _ ⟨⟩

theorem modify {change : Machine → Machine}
    (same : ∀ machine, (change machine).flags.zero = machine.flags.zero) :
    SparesZero (modify change) := by
  rintro machine _ _ ⟨⟩
  exact same machine

theorem bind {action : Action Result} {next : Result → Action Next} (first : SparesZero action)
    (rest : ∀ result, SparesZero (next result)) : SparesZero (action >>= next) := by
  intro machine value final ends
  obtain ⟨result, middle, started, ended⟩ := bind_eq_ok.mp ends
  exact (rest result middle value final ended).trans (first machine result middle started)

theorem get {next : Machine → Action Next} (rest : ∀ machine, SparesZero (next machine)) :
    SparesZero (MonadState.get >>= next) :=
  fun machine => rest machine machine

theorem onHeap (operation : StateM Heap Result) : SparesZero (Machine.onHeap operation) := by
  rintro machine _ _ ⟨⟩
  rfl

theorem malformed (malformation : Malformation) :
    SparesZero (Machine.malformed malformation : Action Result) :=
  .get fun _ => .throw _

end SparesZero

theorem sparesZero_nameOf (datum : Datum CellId) : SparesZero (nameOf datum) := by
  unfold nameOf
  split
  · exact .pure _
  · exact .pure _
  · exact .malformed _

theorem sparesZero_countOf (datum : Datum CellId) : SparesZero (countOf datum) := by
  unfold countOf
  split
  · exact .pure _
  · exact .malformed _

theorem sparesZero_onScopes (change : Scopes → Scopes) : SparesZero (onScopes change) := by
  refine .get fun machine => ?_
  split
  · exact .modify fun _ => rfl
  · exact .throw _

theorem sparesZero_receiver : SparesZero receiver := by
  refine .get fun machine => ?_
  split
  · exact .pure _
  · split
    · exact .pure _
    · exact .throw _

theorem sparesZero_top : SparesZero top := by
  refine .get fun machine => ?_
  split
  · exact .pure _
  · exact .malformed _

theorem sparesZero_pop : SparesZero pop :=
  .bind sparesZero_top fun _ => .bind (.modify fun _ => rfl) fun _ => .pure _

theorem sparesZero_fetch (name : Text) : SparesZero (fetch name) := by
  unfold fetch
  split
  · exact .bind sparesZero_receiver fun _ => .modify fun _ => rfl
  · refine .get fun machine => ?_
    split
    · split
      · exact .modify fun _ => rfl
      · exact .throw _
    · exact .throw _

theorem sparesZero_moveIntoArray (array : ArrayId) (count : Nat) :
    SparesZero (moveIntoArray array count) := by
  induction count with
  | zero => exact .pure _
  | succ position inductionHypothesis =>
    exact .bind sparesZero_pop fun _ => .bind (.onHeap _) fun _ => inductionHypothesis

theorem sparesZero_fillAccumulator (datum : Datum CellId) : SparesZero (fillAccumulator datum) := by
  refine .get fun machine => ?_
  split
  · exact .bind (sparesZero_countOf datum) fun _ => sparesZero_moveIntoArray _ _
  · exact .malformed _

theorem sparesZero_setKey (datum : Datum CellId) : SparesZero (setKey datum) :=
  .bind sparesZero_top fun _ => .bind (sparesZero_nameOf datum) fun _ => .modify fun _ => rfl

/-- Taking a receiver pushes an operand, but nothing is tested then: it `SparesZero`. -/
theorem sparesZero_popReceiver : SparesZero popReceiver := by
  refine .get fun machine => ?_
  split
  · exact .bind (.modify fun _ => rfl) fun _ => .modify fun _ => rfl
  · split
    · exact .modify fun _ => rfl
    · exact .throw _

theorem sparesZero_executePlain {instruction : Instruction CellId}
    (untested : instruction.opcode.retests = false) : SparesZero (executePlain instruction) := by
  obtain ⟨opcode, offset, datum⟩ := instruction
  unfold executePlain
  cases opcode with
  | store | push | pushim | poprop | replprop | index | inc | dec | pinc | pdec | snot | bnot | ret
  | adds | subs | muls | divs | rems | lts | gts | ltes | gtes | eqs | neqs | shls | shrs | bors
  | bands | ors | ands | xors => cases untested
  | noop | loopz => exact .pure ()
  | fetch => exact .bind (sparesZero_nameOf datum) fun name => sparesZero_fetch name
  | res =>
    exact .bind (sparesZero_countOf datum) fun _ => .bind (.onHeap _) fun _ => .modify fun _ => rfl
  | news =>
    exact .bind (sparesZero_nameOf datum) fun name => .bind (.onHeap _) fun _ =>
      sparesZero_onScopes _
  | cpya => exact sparesZero_fillAccumulator datum
  | maps => exact sparesZero_setKey datum
  | jmp | leave | markst => exact .modify fun _ => rfl
  | jmpz | jmpnz =>
    refine .get fun machine => ?_
    split
    · exact .modify fun _ => rfl
    · exact .pure ()
  | pushthis => exact sparesZero_popReceiver
  | call | unknown => exact .malformed _

/-! ### Conditional jumps -/

/-- The next instruction calls a native function. -/
def CallsNative (machine : Machine) : Prop :=
  ∃ count function native, machine.Calls count function ∧
    (machine.heap.function function).native = some native

/-- Where a conditional jump leaves the program counter if it goes by the truth of a content. -/
def branched (machine : Machine) (branch : Instruction CellId) (truth : Bool) : Machine :=
  if truth = decide (branch.opcode = .jmpnz) then
    { machine with current := machine.current + branch.jump }
  else machine

/-- Where a machine `ZeroTracks`, a conditional jump goes by the truth of the topmost operand. -/
theorem ZeroTracks.execute_branch {machine : Machine} {branch : Instruction CellId}
    (tracks : machine.ZeroTracks) (conditional : branch.opcode = .jmpz ∨ branch.opcode = .jmpnz) :
    ∃ topmost, machine.operands.back? = some topmost ∧
      execute branch machine =
        .ok .done (machine.branched branch (machine.heap.content topmost.cell).truthy) := by
  obtain ⟨topmost, present, flag⟩ := tracks
  refine ⟨topmost, present, ?_⟩
  have noCall : branch.opcode ≠ .call := by
    rcases conditional with isOpcode | isOpcode <;> rw [isOpcode] <;> exact Opcode.noConfusion
  refine execute_of_plain noCall ?_
  unfold executePlain branched
  rcases conditional with isOpcode | isOpcode
  · rw [isOpcode]
    refine (get_bind _ _).trans ?_
    rw [flag]
    cases (machine.heap.content topmost.cell).truthy <;> rfl
  · rw [isOpcode]
    refine (get_bind _ _).trans ?_
    rw [flag]
    cases (machine.heap.content topmost.cell).truthy <;> rfl

end Machine

open Machine

namespace Configuration

variable {before after last : Configuration} {passed : List Configuration}
  {instruction : Instruction CellId}

/-! ### Instructions from their first move to their last -/

/-- An instruction is executed to its end. A call that has a script function entered by the host
waits for it in between, while there are more activations than before. -/
structure Completes (before after : Configuration) : Prop where
  executes : before.Executes
  pending : after.pending = before.pending
  run : ∃ waiting, Run before (before :: waiting) after ∧
    ∀ configuration ∈ waiting, before.pending.length < configuration.pending.length

/-- Only the end of a suspended call makes the activations fewer. -/
theorem Moves.zeroTracks_of_fewer (moves : before.Moves after)
    (fewer : after.pending.length < before.pending.length) : after.machine.ZeroTracks := by
  cases moves.step with
  | plain | ret | enter | native => exact absurd fewer (Nat.lt_irrefl _)
  | suspend => exact absurd fewer (Nat.not_lt_of_le (Nat.le_succ _))
  | resume => exact (zeroTracks_nativeReturn _ _ _ _).stepped

/-- A run that comes back from more activations does so with the end of a suspended call, and the
machine `ZeroTracks`. -/
theorem Run.zeroTracks_of_fewer {height : Nat} (run : Run before passed last) (moved : passed ≠ [])
    (above : ∀ configuration ∈ passed, height < configuration.pending.length)
    (back : last.pending.length = height) : last.machine.ZeroTracks := by
  induction run with
  | done => exact absurd rfl moved
  | @move first second last passed moves rest inductionHypothesis =>
    cases rest with
    | done =>
      exact moves.zeroTracks_of_fewer (back ▸ above first (List.mem_cons_self ..))
    | move moves' rest' =>
      exact inductionHypothesis (List.cons_ne_nil _ _)
        (fun configuration member => above configuration (List.mem_cons_of_mem _ member)) back

/-- An instruction that `Completes` and waits for nothing is one move. One that waits is a call of a
native function, and its end tests the result. -/
theorem Completes.cases (completes : before.Completes after) :
    before.Moves after ∨ (before.machine.CallsNative ∧ after.machine.ZeroTracks) := by
  obtain ⟨_, pending, waiting, run, above⟩ := completes
  cases run with
  | @move _ second _ _ moves rest =>
    cases waiting with
    | nil =>
      cases rest
      exact .inl moves
    | cons configuration others =>
      refine .inr ⟨?_, rest.zeroTracks_of_fewer (List.cons_ne_nil _ _) above
        (congrArg List.length pending)⟩
      cases rest with
      | move _ _ =>
        have more := above second (List.mem_cons_self ..)
        cases moves.step with
        | plain | ret | enter | native => exact absurd more (Nat.lt_irrefl _)
        | suspend _ calls kind => exact ⟨_, _, _, calls, kind⟩
        | resume => exact absurd more (Nat.not_lt_of_le (Nat.le_succ _))

/-- One move of an instruction that calls nothing. -/
theorem Moves.zeroFlag_of_plain (moves : before.Moves after) (executes : before.Executes)
    (present : before.machine.instruction? = some instruction)
    (noCall : instruction.opcode ≠ .call) :
    (instruction.opcode.retests = true → after.machine.ZeroTracks) ∧
      (instruction.opcode.retests = false →
        after.machine.flags.zero = before.machine.flags.zero) := by
  obtain ⟨reached, executed, rfl⟩ := moves.exists_plain executes present noCall
  refine ⟨fun tests => ?_, fun untested => ?_⟩
  · exact (retests_executePlain tests _ _ _ executed).stepped
  · exact (congrArg Flags.zero (flags_stepped reached)).trans
      (sparesZero_executePlain untested _ _ _ executed)

/-- One move of a call: a native call that is over at once tests its result, and the entry of a
script function tests nothing. -/
theorem Moves.zeroFlag_of_call (moves : before.Moves after) (executes : before.Executes)
    (present : before.machine.instruction? = some instruction)
    (isCall : instruction.opcode = .call) (pending : after.pending = before.pending) :
    (before.machine.CallsNative → after.machine.ZeroTracks) ∧
      (¬ before.machine.CallsNative → after.machine.flags.zero = before.machine.flags.zero) := by
  cases moves.step with
  | plain _ present' _ noCall =>
    cases present.symm.trans present'
    exact absurd isCall noCall
  | ret _ present' returns =>
    cases present.symm.trans present'
    cases isCall.symm.trans returns
  | enter executes calls script =>
    refine ⟨?_, fun _ => ?_⟩
    · rintro ⟨count, function, native, calls', kind⟩
      obtain ⟨rfl, rfl⟩ := calls.unique calls'
      cases script.symm.trans kind
    · obtain ⟨middle, entering, same⟩ := moves.exists_enter executes calls script
      rw [same, flags_stepped, (enter_left entering).1]
      rfl
  | native _ calls kind =>
    exact ⟨fun _ => (zeroTracks_nativeReturn _ _ _ _).stepped,
      fun script => absurd ⟨_, _, _, calls, kind⟩ script⟩
  | suspend => exact absurd (congrArg List.length pending) (Nat.succ_ne_self _)
  | resume reached => exact absurd executes.depth_lt (Nat.not_lt_of_le reached)

/-- Every instruction that completes. Behind those that end with a test, `Opcode.retests`, and
behind the calls of native functions, `CallsNative`, the machine `ZeroTracks`: the zero flag is set
exactly if the topmost operand is falsy, so that a conditional jump right behind them goes by its
truth; all others leave the flag as it was. -/
theorem Completes.zeroFlag (completes : before.Completes after)
    (present : before.machine.instruction? = some instruction) :
    (instruction.opcode.retests = true ∨ before.machine.CallsNative →
      after.machine.ZeroTracks ∧
      ∀ branch, after.Executes → after.machine.instruction? = some branch →
        branch.opcode = .jmpz ∨ branch.opcode = .jmpnz →
        ∃ topmost, after.machine.operands.back? = some topmost ∧
          after.Moves ⟨(after.machine.branched branch
            (after.machine.heap.content topmost.cell).truthy).stepped, after.pending⟩) ∧
      (¬ (instruction.opcode.retests = true ∨ before.machine.CallsNative) →
        after.machine.flags.zero = before.machine.flags.zero) := by
  have tested (tests : instruction.opcode.retests = true ∨ before.machine.CallsNative) :
      after.machine.ZeroTracks := by
    rcases completes.cases with moves | ⟨_, tracks⟩
    · by_cases isCall : instruction.opcode = .call
      · rcases tests with tests | native
        · rw [isCall] at tests
          cases tests
        · exact (moves.zeroFlag_of_call completes.executes present isCall completes.pending).1
            native
      · rcases tests with tests | ⟨_, _, _, calls, _⟩
        · exact (moves.zeroFlag_of_plain completes.executes present isCall).1 tests
        · exact absurd (calls.opcode present) isCall
    · exact tracks
  refine ⟨fun tests => ⟨tested tests, fun branch executes next conditional => ?_⟩,
    fun untested => ?_⟩
  · obtain ⟨topmost, top, executed⟩ := (tested tests).execute_branch conditional
    exact ⟨topmost, top, executes.advance_eq.trans (executeNext_of_done next executed)⟩
  · rw [not_or, Bool.not_eq_true] at untested
    rcases completes.cases with moves | ⟨native, _⟩
    · by_cases isCall : instruction.opcode = .call
      · exact (moves.zeroFlag_of_call completes.executes present isCall completes.pending).2
          untested.2
      · exact (moves.zeroFlag_of_plain completes.executes present isCall).2 untested.1
    · exact absurd native untested.2

/-- A machine about to call a native function that has a script function entered, which returns
null; a jump on falsehood comes behind the call. -/
def testedCall : Configuration where
  machine :=
    { heap :=
        { cells := #[{ content := .function ⟨0⟩ }, { content := .function ⟨1⟩ }, {}]
          functions := #[{ native := some .invoke }, { entry := 3 }] }
      scopes := { receiver := ⟨2⟩ }
      code := #[{ opcode := .call, datum := { kind := .number, number := 1 } },
        { opcode := .jmpz, jump := 1 }, { opcode := .leave },
        { opcode := .push, datum := { kind := .null } }, { opcode := .ret }]
      stop := 5
      operands := #[{ cell := ⟨0⟩ }, { cell := ⟨1⟩ }] }
  pending := []

theorem zeroFlag_testedCall :
    testedCall.Completes (testedCall.after 4) ∧ (testedCall.after 4).machine.flags.zero = true ∧
      ∃ topmost, (testedCall.after 4).machine.operands.back? = some topmost ∧
        (testedCall.after 4).Moves ⟨((testedCall.after 4).machine.branched
          { opcode := .jmpz, jump := 1 }
          ((testedCall.after 4).machine.heap.content topmost.cell).truthy).stepped,
          (testedCall.after 4).pending⟩ := by
  have run : Run testedCall
      [testedCall, testedCall.after 1, testedCall.after 2, testedCall.after 3]
      (testedCall.after 4) :=
    run_after testedCall 4 (by decide +kernel)
  have completes : testedCall.Completes (testedCall.after 4) :=
    ⟨rfl, by decide +kernel, _, run, by decide +kernel⟩
  have executes : (testedCall.after 4).Executes :=
    executes_of_running (by decide +kernel) (by decide +kernel)
  have native : testedCall.machine.CallsNative :=
    ⟨1, ⟨0⟩, .invoke, ⟨⟨_, rfl, rfl, rfl, rfl⟩, by decide, ⟨0⟩, rfl, rfl⟩, rfl⟩
  obtain ⟨_, branches⟩ := (completes.zeroFlag rfl).1 (.inr native)
  exact ⟨completes, by decide +kernel, branches _ executes (by decide +kernel) (.inl rfl)⟩

end Configuration

end ScriptEngine
