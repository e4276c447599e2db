/-
This file is about calls of native functions. Most of them are over at once. A native function
that has a script function entered suspends its call: the script function gets a frame of its
own above the frame of the call, and runs like any other until it returns; the next move then
takes its result, removes the frame of the call and ends it. Either way the caller finds what
it would find behind a call that does nothing but give a result, as long as the script function
does not take what is not its own.
-/

import ScriptEngine.Proofs.Nesting

namespace ScriptEngine

open Machine

namespace Configuration

variable {first last : Configuration} {passed : List Configuration} {count : Nat}
  {function : FunctionId} {native : Native}

/-! ### The move that calls -/

/-- The `Step` of a call of a native function ends it or suspends it. -/
theorem Step.of_native {after : Configuration} (step : first.Step after)
    (executes : first.Executes) (calls : first.machine.Calls count function)
    (kind : (first.machine.heap.function function).native = some native) :
    (∃ this result middle,
      callHost native (some this) (first.machine.argumentCells count)
        (first.machine.ready count function) = .ok (.value result) middle ∧
      after = ⟨(nativeReturn first.machine.flags.construct result (first.machine.callFrame count)
        middle).stepped, first.pending⟩) ∨
    ∃ this callee receiver? arguments middle entered,
      callHost native (some this) (first.machine.argumentCells count)
        (first.machine.ready count function) = .ok (.enter callee receiver? arguments) middle ∧
      Activated middle entered ∧
      after =
        ⟨entered, middle.activation (.call first.machine.flags.construct) :: first.pending⟩ := by
  cases step with
  | plain _ present _ noCall => exact absurd (calls.opcode present) noCall
  | ret _ present returns => cases returns.symm.trans (calls.opcode present)
  | enter _ calls' script =>
    obtain ⟨rfl, rfl⟩ := calls.unique calls'
    cases script.symm.trans kind
  | native _ calls' kind' hosted =>
    obtain ⟨rfl, rfl⟩ := calls.unique calls'
    cases kind.symm.trans kind'
    exact .inl ⟨_, _, _, hosted, rfl⟩
  | suspend _ calls' kind' hosted activated =>
    obtain ⟨rfl, rfl⟩ := calls.unique calls'
    cases kind.symm.trans kind'
    exact .inr ⟨_, _, _, _, _, _, hosted, activated, rfl⟩
  | resume reached => exact absurd executes.depth_lt (Nat.not_lt_of_le reached)

/-! ### The end of a suspended call -/

/-- What the run finds once the script function of a suspended call has returned, and the caller's
operands and receivers were left alone. -/
structure Awaited (first : Configuration) (count : Nat) (activation : Activation)
    (waiting : Configuration) : Prop where
  frames : waiting.machine.frames = first.machine.frames.push (first.machine.callFrame count)
  pending : waiting.pending = activation :: first.pending
  scopes : waiting.machine.scopes = first.machine.scopes
  operands : waiting.machine.cells.take (first.machine.callFrame count).operandMark =
    first.machine.cells.take (first.machine.callFrame count).operandMark
  receivers : first.machine.receivers.size ≤ waiting.machine.receivers.size ∧
    waiting.machine.receivers.toList.take first.machine.receivers.size =
      first.machine.receivers.toList

/-- A suspended call that gets back to the caller's frames passes the return of the script function,
and finds what it has `Awaited`. -/
theorem Run.exists_awaited {receiver? : Option CellId} {arguments : List CellId}
    {middle entered : Machine} {call : HostCall} {waiting : Waiting}
    (calls : first.machine.Calls count function)
    (hosted : callHost native receiver? arguments (first.machine.ready count function) =
      .ok call middle)
    (activated : Activated middle entered)
    (run : Run ⟨entered, middle.activation waiting :: first.pending⟩ passed last)
    (back : last.machine.frames.size = first.machine.frames.size)
    (operands : ∀ configuration ∈ passed,
      (first.machine.callFrame count).operandMark ≤ configuration.operandsLeft)
    (receivers : ∀ configuration ∈ passed,
      (first.machine.callFrame count).receiverMark ≤ configuration.receiversLeft) :
    ∃ body waits rest, passed = body ++ rest ∧
      Awaited first count (middle.activation waiting) waits ∧ Run waits rest last := by
  obtain ⟨saved, lower, same, scopes, _⟩ := callHost_ready hosted
  have pushed := activated.frames
  rw [saved] at pushed
  have above : Scopes.Above 1 first.machine.scopes entered.scopes :=
    Scopes.Above.opens ⟨rfl, (Nat.zero_add _).symm, rfl, rfl⟩ (scopes ▸ activated.scopes)
  obtain ⟨body, before, after, rest, operand, frame, split, _, frames, pending, returns, scopes,
    run, keeps⟩ := run.exists_return_of_entered above
      (by
        rintro _ ⟨⟩
        unfold activation
        rw [saved, pushed]
        simp)
      (by rw [back, pushed, Array.size_push, Array.size_push]; omega)
  dsimp only at frames
  rw [pushed] at frames
  have room := calls.room
  have top := returns.saved
  rw [frames, Array.back?_push] at top
  cases top
  have kept := keeps first.machine (count + 1) (first.machine.callFrame count).operandMark
    (first.machine.callFrame count).receiverMark (spares_activated hosted activated)
    (by unfold callFrame; dsimp only; omega) (Nat.le_refl _)
    (fun configuration member => operands configuration (by rw [split]; simp [member]))
    (fun configuration member => receivers configuration (by rw [split]; simp [member]))
  have lowest := operands before (by rw [split]; simp)
  refine ⟨body ++ [before], after, rest, by rw [split]; simp, ⟨?_, ?_, scopes, ?_, ?_⟩, run⟩
  · rw [returns.frames, frames, Array.pop_push]
  · rw [returns.after]
    exact pending
  · have mark : (first.machine.callFrame count).operandMark ≤ middle.operands.size := by
      rw [lower, Array.size_shrink, Nat.min_eq_left (Nat.sub_le _ _)]
      exact Nat.le_refl _
    have cut := cells_cut returns.operands mark (returns.operandsLeft ▸ lowest)
    exact cut.2.trans kept.operands.2
  · have whole : first.machine.receivers.toList.take first.machine.receivers.size =
        first.machine.receivers.toList := by
      rw [← Array.length_toList, List.take_length]
    refine returns.take_receivers ⟨kept.receivers.1, kept.receivers.2.trans whole⟩ ?_
    rw [same]
    exact Nat.le_succ _

theorem Awaited.operandsLeft {activation : Activation} {waits : Configuration}
    (awaited : Awaited first count activation waits)
    (depth : activation.depth = first.machine.frames.size + 1) :
    waits.operandsLeft = waits.machine.operands.size - 1 := by
  have size : ¬ activation.depth < waits.machine.frames.size := by
    rw [awaited.frames, Array.size_push, depth]
    exact Nat.lt_irrefl _
  unfold Configuration.operandsLeft
  rw [awaited.pending, nextMove, if_neg size]

/-- The next move of a call that finds what it has `Awaited` then ends it. -/
theorem Awaited.step {activation : Activation} {waits after : Configuration} {construct : Bool}
    (awaited : Awaited first count activation waits) (step : waits.Step after)
    (depth : activation.depth = first.machine.frames.size + 1)
    (waiting : activation.waiting = .call construct) :
    ∃ operand, waits.machine.operands.back? = some operand ∧
      after = ⟨(nativeReturn construct operand.cell (first.machine.callFrame count)
        (waits.machine.concluded activation)).stepped, first.pending⟩ := by
  have size : waits.machine.frames.size = activation.depth := by
    rw [awaited.frames, Array.size_push, depth]
  have busy : ¬ waits.Executes := by
    intro executes
    exact absurd (executes.head_lt activation (by rw [awaited.pending]; rfl)) (by omega)
  cases step with
  | plain executes | ret executes | enter executes | native executes | suspend executes =>
    exact absurd executes busy
  | resume reached waiting' topmost enough saved =>
    obtain ⟨rfl, rfl⟩ := List.cons.inj awaited.pending
    cases waiting.symm.trans waiting'
    have top := saved
    rw [show _ = _ from awaited.frames, Array.back?_push] at top
    cases top
    exact ⟨_, topmost, rfl⟩

/-! ### Behind a native call -/

/-- What the caller finds behind a native call. -/
structure Transparent (first : Configuration) (count : Nat) (last : Configuration)
    (result : CellId) : Prop where
  operands : last.machine.cells =
    first.machine.cells.take (first.machine.callFrame count).operandMark ++ [result]
  frames : last.machine.frames = first.machine.frames
  pending : last.pending = first.pending
  scopes : last.machine.scopes = first.machine.scopes
  current : last.machine.current = first.machine.current + 1
  receivers : last.machine.receivers =
    if first.machine.flags.construct then first.machine.receivers.push result
    else first.machine.receivers
  construct : last.machine.flags.construct = false

theorem transparent_of_nativeReturn {machine : Machine} {result : CellId}
    (executes : first.Executes)
    (frames : machine.frames = first.machine.frames.push (first.machine.callFrame count))
    (scopes : machine.scopes = first.machine.scopes)
    (current : machine.current = first.machine.current)
    (stop : machine.stop = first.machine.stop)
    (operands : machine.cells.take (first.machine.callFrame count).operandMark =
      first.machine.cells.take (first.machine.callFrame count).operandMark)
    (receivers : machine.receivers.toList.take first.machine.receivers.size =
      first.machine.receivers.toList) :
    Transparent first count
      ⟨(nativeReturn first.machine.flags.construct result (first.machine.callFrame count)
        machine).stepped, first.pending⟩ result := by
  have cut : machine.receivers.shrink first.machine.receivers.size = first.machine.receivers := by
    apply Array.toList_inj.mp
    rw [Array.toList_shrink, receivers]
  constructor
  case operands =>
    rw [cells_stepped, ← operands]
    simp [cells, nativeReturn]
  case frames =>
    refine (frames_stepped _).trans ?_
    exact (congrArg Array.pop frames).trans Array.pop_push
  case pending => rfl
  case scopes => exact (scopes_stepped _).trans scopes
  case current =>
    refine (current_stepped ?_).trans ?_
    · change machine.current ≠ machine.stop
      rw [current, stop]
      exact executes.current_ne
    · change machine.current + 1 = _
      rw [current]
  case receivers =>
    refine (receivers_stepped _).trans ?_
    unfold nativeReturn
    dsimp only
    rw [show machine.receivers.shrink (first.machine.callFrame count).receiverMark = _ from cut]
  case construct =>
    rw [flags_stepped]
    exact Bool.not_and_self _

/-- A run that starts with as many frames as it first gets back to has not moved. -/
theorem Run.eq_of_back {later : Configuration} (run : Run later passed last)
    (size : later.machine.frames.size = first.machine.frames.size)
    (away : ∀ configuration ∈ passed,
      configuration.machine.frames.size ≠ first.machine.frames.size) :
    passed = [] ∧ last = later := by
  cases run with
  | done => exact ⟨rfl, rfl⟩
  | move moves rest => exact absurd size (away later (List.mem_cons_self ..))

/-- A call of a native function and the first configuration after it with as many frames as there
were. If no script function that runs meanwhile takes an operand or a receiver of the caller, by
`operandsLeft` and `receiversLeft`, then the call was `Transparent`: the caller finds its own state
and the result, which the native function has given in `callHost` or which is the result of the
script function it has had entered. -/
theorem Run.nativeCall_transparent (run : Run first passed last) (executes : first.Executes)
    (calls : first.machine.Calls count function)
    (kind : (first.machine.heap.function function).native = some native) (moved : passed ≠ [])
    (back : last.machine.frames.size = first.machine.frames.size)
    (away : ∀ configuration ∈ passed.tail,
      configuration.machine.frames.size ≠ first.machine.frames.size)
    (operands : ∀ configuration ∈ passed.tail,
      (first.machine.callFrame count).operandMark ≤ configuration.operandsLeft)
    (receivers : ∀ configuration ∈ passed.tail,
      (first.machine.callFrame count).receiverMark ≤ configuration.receiversLeft) :
    ∃ result, Transparent first count last result ∧
      ((∃ this middle, callHost native (some this) (first.machine.argumentCells count)
        (first.machine.ready count function) = .ok (.value result) middle) ∨
      ∃ waits operand, passed.tail.getLast? = some waits ∧
        waits.machine.operands.back? = some operand ∧ operand.cell = result) := by
  have stops := run.setting
  obtain ⟨second, rest, rfl, moves, run⟩ := run.cases_move moved
  rw [List.tail_cons] at away operands receivers ⊢
  rcases moves.step.of_native executes calls kind with ⟨this, result, middle, hosted, rfl⟩ |
    ⟨this, callee, receiver?, arguments, middle, entered, hosted, activated, rfl⟩
  · obtain ⟨frames, lower, same, scopes, setting⟩ := callHost_ready hosted
    have transparent : Transparent first count
        ⟨(nativeReturn first.machine.flags.construct result (first.machine.callFrame count)
          middle).stepped, first.pending⟩ result := by
      refine transparent_of_nativeReturn executes frames scopes ?_ ?_ ?_ ?_
      · rw [callHost_left (leftBy_of_ok hosted)]
        rfl
      · exact congrArg Setting.stop setting
      · simp [cells, lower, callFrame, List.take_take]
      · rw [same, ← Array.length_toList, List.take_length]
    obtain ⟨rfl, rfl⟩ := run.eq_of_back (by rw [transparent.frames]) away
    exact ⟨result, transparent, .inl ⟨this, middle, hosted⟩⟩
  · obtain ⟨body, waits, later, rfl, awaited, run⟩ :=
      Run.exists_awaited calls hosted activated run back operands receivers
    obtain ⟨saved, _, same, _, _⟩ := callHost_ready hosted
    have depth : (middle.activation (.call first.machine.flags.construct)).depth =
        first.machine.frames.size + 1 := by
      unfold activation
      rw [saved, Array.size_push]
    cases run with
    | done =>
      rw [awaited.frames, Array.size_push] at back
      omega
    | @move _ after _ later moves run =>
      obtain ⟨operand, topmost, rfl⟩ := awaited.step moves.step depth rfl
      have lowest := operands waits (by simp)
      rw [awaited.operandsLeft depth] at lowest
      have transparent : Transparent first count
          ⟨(nativeReturn first.machine.flags.construct operand.cell (first.machine.callFrame count)
            (waits.machine.concluded
              (middle.activation (.call first.machine.flags.construct)))).stepped,
            first.pending⟩ operand.cell := by
        refine transparent_of_nativeReturn executes awaited.frames awaited.scopes ?_ ?_ ?_ ?_
        · change middle.current = _
          rw [callHost_left (leftBy_of_ok hosted)]
          rfl
        · exact congrArg Setting.stop (stops.1 waits (by simp))
        · obtain ⟨lower, equal⟩ := Array.back?_eq_some_iff.mp topmost
          have positive : 0 < waits.machine.operands.size := by simp [equal]
          exact ((Spares.pop waits.machine).operands _ (by omega)).2.trans awaited.operands
        · refine (take_shrink awaited.receivers ?_).2
          exact Nat.le_of_eq (congrArg Array.size same).symm
      obtain ⟨rfl, rfl⟩ := run.eq_of_back (by rw [transparent.frames])
        fun configuration member => away configuration (by simp [member])
      exact ⟨operand.cell, transparent, .inr ⟨waits, operand, by simp, topmost, rfl⟩⟩

/-- A machine about to make a constructor call of a native function that has a script function
entered, which returns null. -/
def sampleNativeCall : Configuration where
  machine :=
    { heap :=
        { cells := #[{ content := .function ⟨0⟩ }, { content := .function ⟨1⟩ }, {}]
          functions := #[{ native := some .invoke }, { entry := 1 }] }
      scopes := { receiver := ⟨2⟩ }
      code := #[{ opcode := .call, datum := { kind := .number, number := 1 } },
        { opcode := .push, datum := { kind := .null } }, { opcode := .ret }]
      stop := 3
      flags := { construct := true }
      operands := #[{ cell := ⟨2⟩ }, { cell := ⟨0⟩ }, { cell := ⟨1⟩ }] }
  pending := []

theorem nativeCall_transparent_sample :
    ∃ result, Transparent sampleNativeCall 1 (sampleNativeCall.after 4) result := by
  have run : Run sampleNativeCall
      [sampleNativeCall, sampleNativeCall.after 1, sampleNativeCall.after 2,
        sampleNativeCall.after 3] (sampleNativeCall.after 4) :=
    run_after sampleNativeCall 4 (by decide +kernel)
  have calls : sampleNativeCall.machine.Calls 1 ⟨0⟩ :=
    ⟨⟨_, rfl, rfl, rfl, rfl⟩, by decide, ⟨0⟩, rfl, rfl⟩
  have kind : (sampleNativeCall.machine.heap.function ⟨0⟩).native = some .invoke := rfl
  obtain ⟨result, transparent, _⟩ := run.nativeCall_transparent rfl calls kind (by simp)
    (by decide +kernel) (by decide +kernel) (by decide +kernel) (by decide +kernel)
  exact ⟨result, transparent⟩

end Configuration

end ScriptEngine
