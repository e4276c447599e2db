/-
This file is about the return of a call. A run that calls a script function and comes back to as
many frames as there were has executed the return of that very call, whatever happened in
between: the frames are those of the caller, and the program goes on behind the call. The
return cuts the operands back to the mark of the call but never makes them longer, so a function
that has taken from its caller leaves fewer; a function that has not leaves the caller's own.
-/

import ScriptEngine.Proofs.Nesting

namespace ScriptEngine

open Machine

namespace Configuration

variable {first last : Configuration} {passed : List Configuration} {count : Nat}
  {function : FunctionId}

/-! ### From the call to its return -/

/-- The `Step` of a call of a script function enters it. -/
theorem Step.of_script {after : Configuration} (step : first.Step after)
    (executes : first.Executes) (calls : first.machine.Calls count function)
    (script : (first.machine.heap.function function).native = none) :
    ∃ entered, Entered (first.machine.ready count function) entered ∧
      after = ⟨entered.stepped, first.pending⟩ := by
  cases step with
  | plain _ present _ noCall => exact absurd (calls.opcode present) noCall
  | ret _ present returns => cases returns.symm.trans (calls.opcode present)
  | @enter machine entered pending count' function' _ calls' _ entering =>
    obtain ⟨rfl, rfl⟩ := calls.unique calls'
    exact ⟨entered, entering, rfl⟩
  | native _ calls' kind =>
    obtain ⟨rfl, rfl⟩ := calls.unique calls'
    cases script.symm.trans kind
  | suspend _ calls' kind =>
    obtain ⟨rfl, rfl⟩ := calls.unique calls'
    cases script.symm.trans kind
  | resume reached => exact absurd executes.depth_lt (Nat.not_lt_of_le reached)

/-- The first return to the caller's frames is the return of the call. What a machine that `Spares`
the stacks of another below some heights when the function is entered is there when it returns, if
no move of the body takes from it. -/
theorem Run.exists_return_of_script (run : Run first passed last) (executes : first.Executes)
    (calls : first.machine.Calls count function)
    (script : (first.machine.heap.function function).native = none) (moved : passed ≠ [])
    (back : last.machine.frames.size = first.machine.frames.size)
    (away : ∀ configuration ∈ passed.tail,
      configuration.machine.frames.size ≠ first.machine.frames.size) :
    ∃ entered body before operand, first.Moves ⟨entered, first.pending⟩ ∧
      Spares (count + 1) 0 first.machine entered ∧
      passed.tail.head? = some ⟨entered, first.pending⟩ ∧ passed.tail = body ++ [before] ∧
      before.machine.frames = first.machine.frames.push (first.machine.callFrame count) ∧
      before.pending = first.pending ∧
      before.Returns operand (first.machine.callFrame count) last ∧
      last.machine.scopes = first.machine.scopes ∧
      ∀ caller taken operandHeight receiverHeight, Spares taken 0 caller entered →
        operandHeight + taken ≤ caller.operands.size → receiverHeight ≤ caller.receivers.size →
        (∀ configuration ∈ body, operandHeight ≤ configuration.operandsLeft) →
        (∀ configuration ∈ body, receiverHeight ≤ configuration.receiversLeft) →
        Keeps caller operandHeight receiverHeight
          (first.machine.frames.push (first.machine.callFrame count)).toList [] before := by
  obtain ⟨second, rest, rfl, moves, run⟩ := run.cases_move moved
  obtain ⟨entered, entering, rfl⟩ := moves.step.of_script executes calls script
  have pushed : entered.stepped.frames =
      first.machine.frames.push (first.machine.callFrame count) :=
    (frames_stepped _).trans entering.frames
  have above : Scopes.Above 1 first.machine.scopes entered.stepped.scopes := by
    rw [scopes_stepped]
    exact Scopes.Above.opens ⟨rfl, (Nat.zero_add _).symm, rfl, rfl⟩ entering.scopes
  have started : rest.head? = some ⟨entered.stepped, first.pending⟩ := by
    cases run with
    | done =>
      rw [pushed, Array.size_push] at back
      omega
    | move => rfl
  obtain ⟨body, before, after, later, operand, frame, split, _, frames, pending, returns, scopes,
    run, keeps⟩ := run.exists_return_of_entered above
      (by
        intro activation member
        rw [pushed, Array.size_push]
        exact Nat.lt_succ_of_lt (executes.head_lt activation member))
      (by rw [back, pushed, Array.size_push]; exact Nat.lt_succ_self _)
  dsimp only at frames keeps
  rw [pushed] at frames keeps
  have saved := returns.saved
  rw [frames, Array.back?_push] at saved
  cases saved
  have size : after.machine.frames.size = first.machine.frames.size := by
    rw [returns.frames, frames, Array.pop_push]
  cases run with
  | move moves run => exact absurd size (away after (by rw [List.tail_cons, split]; simp))
  | done =>
    exact ⟨entered.stepped, body, before, operand, moves, (spares_entered entering).stepped,
      started, split, frames, pending, returns, scopes, keeps⟩

/-- The caller's own operands and receivers are there where the call `Returns`, as far as no move of
the body takes from them. -/
theorem Run.exists_matching (run : Run first passed last) (executes : first.Executes)
    (calls : first.machine.Calls count function)
    (script : (first.machine.heap.function function).native = none) (moved : passed ≠ [])
    (back : last.machine.frames.size = first.machine.frames.size)
    (away : ∀ configuration ∈ passed.tail,
      configuration.machine.frames.size ≠ first.machine.frames.size) :
    ∃ body before operand, passed.tail = body ++ [before] ∧
      before.machine.frames = first.machine.frames.push (first.machine.callFrame count) ∧
      before.pending = first.pending ∧
      before.Returns operand (first.machine.callFrame count) last ∧
      last.machine.scopes = first.machine.scopes ∧
      ∀ operandHeight receiverHeight,
        operandHeight ≤ (first.machine.callFrame count).operandMark →
        receiverHeight ≤ (first.machine.callFrame count).receiverMark →
        (∀ configuration ∈ body, operandHeight ≤ configuration.operandsLeft) →
        (∀ configuration ∈ body, receiverHeight ≤ configuration.receiversLeft) →
        Keeps first.machine operandHeight receiverHeight
          (first.machine.frames.push (first.machine.callFrame count)).toList [] before := by
  obtain ⟨entered, body, before, operand, _, spares, _, split, frames, pending, returns, scopes,
    keeps⟩ := run.exists_return_of_script executes calls script moved back away
  refine ⟨body, before, operand, split, frames, pending, returns, scopes, ?_⟩
  intro operandHeight receiverHeight operands receivers operandsLeft receiversLeft
  have room := calls.room
  unfold callFrame at operands
  dsimp only at operands
  exact keeps first.machine (count + 1) operandHeight receiverHeight spares (by omega) receivers
    operandsLeft receiversLeft

/-! ### Behind the return -/

/-- What a run finds behind a call of a script function whose return is the last move of the
run, made from `before` with `result` as the topmost operand. -/
structure MatchingReturn (first : Configuration) (count : Nat) (body : List Configuration)
    (before last : Configuration) (result : CellId) : Prop where
  frames : last.machine.frames = first.machine.frames
  pending : last.pending = first.pending
  scopes : last.machine.scopes = first.machine.scopes
  current : last.machine.current = first.machine.current + 1
  construct : last.machine.flags.construct = false
  zero : last.machine.flags.zero = !(last.machine.heap.content result).truthy
  top : last.machine.cells.getLast? = some result
  size : last.machine.operands.size =
    min (first.machine.callFrame count).operandMark (before.machine.operands.size - 1) + 1
  /-- Operands that the body never takes are the caller's own. -/
  operands : (∀ configuration ∈ body,
      (first.machine.callFrame count).operandMark ≤ configuration.operandsLeft) →
    last.machine.cells.take (first.machine.callFrame count).operandMark =
      first.machine.cells.take (first.machine.callFrame count).operandMark
  /-- Receivers that the body never takes are the caller's own. -/
  receivers : (∀ configuration ∈ body,
      (first.machine.callFrame count).receiverMark ≤ configuration.receiversLeft) →
    last.machine.receivers.toList.take (first.machine.callFrame count).receiverMark =
      first.machine.receivers.toList.take (first.machine.callFrame count).receiverMark

/-- A call of a script function and the first configuration after it with as many frames as there
were: it is the `MatchingReturn` of the call, made with the topmost operand as the result. -/
theorem Run.matchingReturn (run : Run first passed last) (executes : first.Executes)
    (calls : first.machine.Calls count function)
    (script : (first.machine.heap.function function).native = none) (moved : passed ≠ [])
    (back : last.machine.frames.size = first.machine.frames.size)
    (away : ∀ configuration ∈ passed.tail,
      configuration.machine.frames.size ≠ first.machine.frames.size) :
    ∃ before operand, passed.tail.getLast? = some before ∧ before.Executes ∧
      (before.machine.instruction?.map Instruction.opcode = some .ret) ∧
      before.machine.operands.back? = some operand ∧
      MatchingReturn first count passed.tail before last operand.cell := by
  obtain ⟨body, before, operand, split, frames, pending, returns, scopes, keeps⟩ :=
    run.exists_matching executes calls script moved back away
  obtain ⟨instruction, present, isReturn⟩ := returns.instruction
  refine ⟨before, operand, ?_, returns.executes, ?_, returns.topmost, ?_⟩
  · rw [split, List.getLast?_concat]
  · rw [present, Option.map_some, isReturn]
  have stop : before.machine.stop = first.machine.stop := by
    have member : before ∈ passed := List.mem_of_mem_tail (by rw [split]; simp)
    exact congrArg Setting.stop (run.setting.1 before member)
  constructor
  case frames => rw [returns.frames, frames, Array.pop_push]
  case pending =>
    rw [returns.after]
    exact pending
  case scopes => exact scopes
  case current =>
    rw [returns.after]
    refine current_stepped ?_
    change first.machine.current ≠ before.machine.stop
    rw [stop]
    exact executes.current_ne
  case construct =>
    rw [returns.after, flags_stepped]
    rfl
  case zero =>
    rw [returns.after, flags_stepped, heap_stepped]
    rfl
  case top => simp [cells, returns.operands]
  case size => rw [returns.operands, Array.size_push, Array.size_shrink, Array.size_pop]
  case operands =>
    intro untouched
    have lowest := untouched before (by rw [split]; simp)
    have kept := keeps _ 0 (Nat.le_refl _) (Nat.zero_le _)
      (fun configuration member => untouched configuration (by rw [split]; simp [member]))
      (fun _ _ => Nat.zero_le _)
    have cut := cells_cut returns.operands (Nat.le_refl _) (returns.operandsLeft ▸ lowest)
    exact cut.2.trans kept.operands.2
  case receivers =>
    intro untouched
    have kept := keeps 0 _ (Nat.zero_le _) (Nat.le_refl _) (fun _ _ => Nat.zero_le _)
      (fun configuration member => untouched configuration (by rw [split]; simp [member]))
    exact (returns.take_receivers kept.receivers (Nat.le_refl _)).2

/-- A machine about to call a function that returns null, with one argument and one operand of
the caller below. -/
def sampleCall : Configuration where
  machine :=
    { heap :=
        { cells := #[{ content := .function ⟨0⟩ }, {}, { content := .null }]
          functions := #[{ entry := 1, params := [Text.ofString "x"] }] }
      scopes := { receiver := ⟨1⟩ }
      code := #[{ opcode := .call, datum := { kind := .number, number := 1 } },
        { opcode := .push, datum := { kind := .null } }, { opcode := .ret }]
      stop := 3
      operands := #[{ cell := ⟨2⟩ }, { cell := ⟨0⟩ }, { cell := ⟨1⟩ }] }
  pending := []

theorem matchingReturn_sample :
    ∃ before : Configuration, ∃ operand : Operand,
      MatchingReturn sampleCall 1 [sampleCall.after 1, sampleCall.after 2] before
        (sampleCall.after 3) operand.cell := by
  have run : Run sampleCall [sampleCall, sampleCall.after 1, sampleCall.after 2]
      (sampleCall.after 3) :=
    run_after sampleCall 3 (by decide +kernel)
  have calls : sampleCall.machine.Calls 1 ⟨0⟩ :=
    ⟨⟨_, rfl, rfl, rfl, rfl⟩, by decide, ⟨0⟩, rfl, rfl⟩
  obtain ⟨before, operand, _, _, _, _, returned⟩ := run.matchingReturn rfl calls rfl (by simp)
    (by decide +kernel) (by decide +kernel)
  exact ⟨before, operand, returned⟩

end Configuration

end ScriptEngine
