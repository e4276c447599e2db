/-
This file says what one move of a run can be. A configuration is a machine together with the
activations that have not returned. A move that lets the run go on is one of six: an instruction
that neither calls nor returns, a return, a call that enters a script function, a native call
that is over at once, a native call that is suspended because it has a script function entered,
and the end of such a call once that function has returned.
-/

import ScriptEngine.Proofs.Dispatch

namespace ScriptEngine

/-- A machine in the middle of a run, and the activations that have not returned. -/
structure Configuration where
  machine : Machine
  pending : List Activation

namespace Machine

variable {Result Next : Type}

/-! ### Behind an instruction -/

/-- The machine behind its instruction, unless it has reached the end of the run. -/
def stepped (machine : Machine) : Machine :=
  if machine.current = machine.stop then machine
  else { machine with current := machine.current + 1 }

theorem stepOver_eq (machine : Machine) : stepOver machine = .ok () machine.stepped := rfl

@[simp]
theorem frames_stepped (machine : Machine) : machine.stepped.frames = machine.frames := by
  unfold stepped
  split <;> rfl

@[simp]
theorem operands_stepped (machine : Machine) : machine.stepped.operands = machine.operands := by
  unfold stepped
  split <;> rfl

@[simp]
theorem receivers_stepped (machine : Machine) : machine.stepped.receivers = machine.receivers := by
  unfold stepped
  split <;> rfl

@[simp]
theorem scopes_stepped (machine : Machine) : machine.stepped.scopes = machine.scopes := by
  unfold stepped
  split <;> rfl

@[simp]
theorem flags_stepped (machine : Machine) : machine.stepped.flags = machine.flags := by
  unfold stepped
  split <;> rfl

@[simp]
theorem heap_stepped (machine : Machine) : machine.stepped.heap = machine.heap := by
  unfold stepped
  split <;> rfl

@[simp]
theorem setting_stepped (machine : Machine) : machine.stepped.setting = machine.setting := by
  unfold stepped
  split <;> rfl

@[simp]
theorem cells_stepped (machine : Machine) : machine.stepped.cells = machine.cells := by
  rw [cells, cells, operands_stepped]

/-- Where the end of the run is not reached, the program counter goes on by one. -/
theorem current_stepped {machine : Machine} (running : machine.current ≠ machine.stop) :
    machine.stepped.current = machine.current + 1 := by
  unfold stepped
  rw [if_neg running]

theorem Alike.stepped {before after : Machine} (alike : before.Alike after) :
    before.Alike after.stepped := by
  refine ⟨?_, ?_, ?_⟩
  · rw [frames_stepped, alike.frames]
  · rw [setting_stepped, alike.setting]
  · rw [scopes_stepped]
    exact alike.scopes

theorem Spares.stepped {taken popped : Nat} {before after : Machine}
    (spares : Spares taken popped before after) : Spares taken popped before after.stepped :=
  spares.congr rfl rfl (operands_stepped after) (receivers_stepped after)

/-! ### The six kinds of moves -/

/-- The next instruction is a call with `count` arguments, and it is a function that is called. -/
structure Calls (machine : Machine) (count : Nat) (function : FunctionId) : Prop where
  instruction : ∃ instruction, machine.instruction? = some instruction ∧
    instruction.opcode = .call ∧ instruction.datum.kind = .number ∧
    Number.size? instruction.datum.number = some count
  room : count < machine.operands.size
  callee : ∃ callee, machine.callee? count = some callee ∧
    machine.heap.content callee = .function function

/-- The machine once the result of an activation that has returned is taken. -/
def concluded (machine : Machine) (activation : Activation) : Machine :=
  { machine with
    current := activation.pc
    operands := machine.operands.pop
    receivers := machine.receivers.shrink activation.receiverMark }

end Machine

open Machine

namespace Configuration

/-- One move leads from a configuration to another, and the run goes on from there. -/
def Moves (before after : Configuration) : Prop :=
  advance before.pending before.machine = .ok (.running after.pending) after.machine

/-- The next move executes an instruction. -/
def Executes (configuration : Configuration) : Prop :=
  configuration.machine.nextMove configuration.pending = .execute

/-- What one move of a run can be: an instruction that neither calls nor returns, a return, a call
that enters a script function, or a native call, which is over at once, has a script function
entered, or goes on behind it. -/
inductive Step : Configuration → Configuration → Prop where
  /-- An instruction that neither calls nor returns. -/
  | plain {machine after : Machine} {pending : List Activation} {instruction : Instruction CellId}
    (executes : Executes ⟨machine, pending⟩) (present : machine.instruction? = some instruction)
    (noReturn : instruction.opcode ≠ .ret) (noCall : instruction.opcode ≠ .call)
    (alike : machine.Alike after)
    (spares : Spares instruction.operandsTaken instruction.receiversTaken machine after) :
    Step ⟨machine, pending⟩ ⟨after, pending⟩
  /-- A return. -/
  | ret {machine : Machine} {pending : List Activation} {instruction : Instruction CellId}
    {operand : Operand} {frame : Frame}
    (executes : Executes ⟨machine, pending⟩) (present : machine.instruction? = some instruction)
    (returns : instruction.opcode = .ret) (topmost : machine.operands.back? = some operand)
    (saved : machine.frames.back? = some frame) :
    Step ⟨machine, pending⟩ ⟨(scriptReturn operand.cell frame machine).stepped, pending⟩
  /-- A call that enters a script function. -/
  | enter {machine after : Machine} {pending : List Activation} {count : Nat}
    {function : FunctionId}
    (executes : Executes ⟨machine, pending⟩) (calls : machine.Calls count function)
    (script : (machine.heap.function function).native = none)
    (entered : Entered (machine.ready count function) after) :
    Step ⟨machine, pending⟩ ⟨after.stepped, pending⟩
  /-- A native call that is over at once. -/
  | native {machine middle : Machine} {pending : List Activation} {count : Nat}
    {function : FunctionId} {native : Native} {this result : CellId}
    (executes : Executes ⟨machine, pending⟩) (calls : machine.Calls count function)
    (kind : (machine.heap.function function).native = some native)
    (hosted : callHost native (some this) (machine.argumentCells count)
      (machine.ready count function) = .ok (.value result) middle) :
    Step ⟨machine, pending⟩
      ⟨(nativeReturn machine.flags.construct result (machine.callFrame count) middle).stepped,
        pending⟩
  /-- A native call that has a script function entered. -/
  | suspend {machine middle after : Machine} {pending : List Activation} {count : Nat}
    {function callee : FunctionId} {native : Native} {this : CellId} {receiver? : Option CellId}
    {passed : List CellId}
    (executes : Executes ⟨machine, pending⟩) (calls : machine.Calls count function)
    (kind : (machine.heap.function function).native = some native)
    (hosted : callHost native (some this) (machine.argumentCells count)
      (machine.ready count function) = .ok (.enter callee receiver? passed) middle)
    (activated : Activated middle after) :
    Step ⟨machine, pending⟩
      ⟨after, middle.activation (.call machine.flags.construct) :: pending⟩
  /-- The end of a native call whose script function has returned. -/
  | resume {machine : Machine} {activation : Activation} {pending : List Activation}
    {construct : Bool} {operand : Operand} {frame : Frame}
    (reached : machine.frames.size ≤ activation.depth)
    (waiting : activation.waiting = .call construct)
    (topmost : machine.operands.back? = some operand)
    (enough : activation.receiverMark ≤ machine.receivers.size)
    (saved : machine.frames.back? = some frame) :
    Step ⟨machine, activation :: pending⟩
      ⟨(nativeReturn construct operand.cell frame (machine.concluded activation)).stepped,
        pending⟩

/-! ### Every move is one of them -/

theorem nextMove_eq_resume {machine : Machine} {pending rest : List Activation}
    {activation : Activation} (move : machine.nextMove pending = .resume activation rest) :
    pending = activation :: rest ∧ machine.frames.size ≤ activation.depth := by
  cases pending with
  | nil =>
    rw [nextMove] at move
    split at move <;> cases move
  | cons top outer =>
    rw [nextMove] at move
    split at move
    · split at move <;> cases move
    · rename_i reached
      cases move
      exact ⟨rfl, Nat.le_of_not_lt reached⟩

theorem nextMove_eq_finish {machine : Machine} {pending : List Activation}
    (move : machine.nextMove pending = .finish) : pending = [] := by
  cases pending with
  | nil => rfl
  | cons top outer =>
    rw [nextMove] at move
    split at move
    · split at move <;> cases move
    · cases move

/-- `unwind` ends the run. -/
theorem unwind_ne_ok (fault : ScriptFault) (pending : List Activation) (machine final : Machine)
    (progress : Progress) : unwind fault pending machine ≠ .ok progress final := by
  induction pending generalizing fault machine with
  | nil => rintro ⟨⟩
  | cons activation pending inductionHypothesis =>
    intro ends
    unfold unwind at ends
    cases waiting : activation.waiting with
    | host =>
      rw [waiting] at ends
      cases ends
    | call construct =>
      rw [waiting] at ends
      obtain ⟨_, left, _, ends⟩ := bind_eq_ok.mp ends
      exact inductionHypothesis _ left ends

/-- Where `executeNext` lets the run go on, its instruction has succeeded. -/
theorem executeNext_eq_ok {pending : List Activation} {machine final : Machine}
    {progress : Progress} (ends : executeNext pending machine = .ok progress final) :
    ∃ instruction flow middle, machine.instruction? = some instruction ∧
      execute instruction machine = .ok flow middle ∧
      ((flow = .done ∧ final = middle.stepped ∧ progress = .running pending) ∨
        ∃ activation, flow = .suspended activation ∧ final = middle ∧
          progress = .running (activation :: pending)) := by
  have ends := (get_bind _ _).symm.trans ends
  cases present : machine.instruction? with
  | none =>
    rw [present] at ends
    cases ends
  | some instruction =>
    rw [present] at ends
    refine ⟨instruction, ?_⟩
    obtain ⟨outcome, middle, tried, ends⟩ := bind_eq_ok.mp ends
    cases executed : execute instruction machine with
    | ok flow reached =>
      have mapped : (Sum.inl <$> execute instruction : Action (Flow ⊕ ScriptFault)) machine =
          .ok (.inl flow) reached := bind_of_ok executed
      cases (tryCatch_of_ok mapped).symm.trans tried
      cases flow with
      | done =>
        cases (bind_of_ok (stepOver_eq _)).symm.trans ends
        exact ⟨.done, _, rfl, rfl, .inl ⟨rfl, rfl, rfl⟩⟩
      | suspended activation =>
        cases ends
        exact ⟨.suspended activation, _, rfl, rfl, .inr ⟨activation, rfl, rfl, rfl⟩⟩
    | error fault reached =>
      have mapped : (Sum.inl <$> execute instruction : Action (Flow ⊕ ScriptFault)) machine =
          .error fault reached := bind_of_error executed
      have handled := (tryCatch_of_error mapped).symm.trans tried
      cases fault with
      | script fault =>
        cases handled
        exact absurd ends (unwind_ne_ok _ _ _ _ _)
      | malformed place malformation => cases handled
      | breakdown breakdown => cases handled

/-- Where `executeNext` ends the run, its instruction has failed, or there is none. -/
theorem executeNext_eq_error {pending : List Activation} {machine final : Machine} {fault : Fault}
    (ends : executeNext pending machine = .error fault final) :
    (final = machine ∧ ∀ inner, fault ≠ .script inner) ∨
      ∃ instruction failure middle, execute instruction machine = .error failure middle ∧
        ((∃ inner passed, failure = .script inner ∧
          unwind passed pending middle = .error fault final) ∨
        ((∀ inner, failure ≠ .script inner) ∧ fault = failure ∧ final = middle)) := by
  have ends := (get_bind _ _).symm.trans ends
  cases present : machine.instruction? with
  | none =>
    rw [present] at ends
    cases ends
    exact .inl ⟨rfl, fun _ => Fault.noConfusion⟩
  | some instruction =>
    rw [present] at ends
    right
    refine ⟨instruction, ?_⟩
    cases executed : execute instruction machine with
    | ok flow reached =>
      have mapped : (Sum.inl <$> execute instruction : Action (Flow ⊕ ScriptFault)) machine =
          .ok (.inl flow) reached := bind_of_ok executed
      rcases bind_eq_error.mp ends with failed | ⟨outcome, middle, tried, rest⟩
      · cases (tryCatch_of_ok mapped).symm.trans failed
      · cases (tryCatch_of_ok mapped).symm.trans tried
        cases flow with
        | done => cases (bind_of_ok (stepOver_eq _)).symm.trans rest
        | suspended activation => cases rest
    | error failure reached =>
      have mapped : (Sum.inl <$> execute instruction : Action (Flow ⊕ ScriptFault)) machine =
          .error failure reached := bind_of_error executed
      refine ⟨failure, reached, rfl, ?_⟩
      rcases bind_eq_error.mp ends with failed | ⟨outcome, middle, tried, rest⟩
      · have handled := (tryCatch_of_error mapped).symm.trans failed
        cases failure with
        | script inner => cases handled
        | malformed place malformation =>
          cases handled
          exact .inr ⟨fun _ => Fault.noConfusion, rfl, rfl⟩
        | breakdown breakdown =>
          cases handled
          exact .inr ⟨fun _ => Fault.noConfusion, rfl, rfl⟩
      · have handled := (tryCatch_of_error mapped).symm.trans tried
        cases failure with
        | script inner =>
          cases handled
          exact .inl ⟨inner, _, rfl, rest⟩
        | malformed place malformation => cases handled
        | breakdown breakdown => cases handled

theorem conclude_eq_ok {activation : Activation} {machine final : Machine} {result : CellId}
    (ends : conclude activation machine = .ok result final) :
    ∃ operand, machine.operands.back? = some operand ∧
      activation.receiverMark ≤ machine.receivers.size ∧ result = operand.cell ∧
      final = machine.concluded activation := by
  have ends := (modify_bind _ _ _).symm.trans ends
  obtain ⟨operand, popped, popping, ends⟩ := bind_eq_ok.mp ends
  obtain ⟨topmost, rfl⟩ := pop_eq_ok.mp popping
  have ends := (get_bind _ _).symm.trans ends
  refine ⟨operand, topmost, ?_⟩
  dsimp only at ends
  split at ends
  · cases ends
  · rename_i enough
    cases ends
    exact ⟨Nat.le_of_not_lt enough, rfl, rfl⟩

theorem resume_eq_running {activation : Activation} {pending later : List Activation}
    {machine final : Machine}
    (ends : resume activation pending machine = .ok (.running later) final) :
    later = pending ∧ ∃ construct operand frame, activation.waiting = .call construct ∧
      machine.operands.back? = some operand ∧
      activation.receiverMark ≤ machine.receivers.size ∧
      machine.frames.back? = some frame ∧
      final =
        (nativeReturn construct operand.cell frame (machine.concluded activation)).stepped := by
  obtain ⟨result, middle, concluding, ends⟩ := bind_eq_ok.mp ends
  obtain ⟨operand, topmost, enough, rfl, rfl⟩ := conclude_eq_ok concluding
  cases waiting : activation.waiting with
  | host =>
    rw [waiting] at ends
    cases ends
  | call construct =>
    rw [waiting] at ends
    obtain ⟨_, finished, finishing, ends⟩ := bind_eq_ok.mp ends
    cases (bind_of_ok (stepOver_eq _)).symm.trans ends
    cases saved : machine.frames.back? with
    | none =>
      obtain ⟨_, _, leaving, _⟩ := bind_eq_ok.mp finishing
      have empty : (machine.concluded activation).frames.back? = none := saved
      cases (leaveFrame_of_none empty).symm.trans leaving
    | some frame =>
      have topmostFrame : (machine.concluded activation).frames.back? = some frame := saved
      cases (finishNative_of_some construct operand.cell topmostFrame).symm.trans finishing
      exact ⟨rfl, construct, operand, frame, rfl, topmost, enough, rfl, rfl⟩

theorem countOf_eq_ok {datum : Datum CellId} {machine final : Machine} {count : Nat}
    (ends : countOf datum machine = .ok count final) :
    datum.kind = .number ∧ Number.size? datum.number = some count ∧ final = machine := by
  rcases countOf_cases datum with ⟨kind, size, equal⟩ | ⟨malformation, equal⟩
  · rw [equal] at ends
    cases ends
    exact ⟨kind, size, rfl⟩
  · rw [equal] at ends
    cases ends

/-- A call that lets the run go on. -/
theorem step_of_call {machine middle final : Machine} {pending later : List Activation}
    {instruction : Instruction CellId} {flow : Flow}
    (executes : Executes ⟨machine, pending⟩) (present : machine.instruction? = some instruction)
    (isCall : instruction.opcode = .call)
    (executed : execute instruction machine = .ok flow middle)
    (goesOn : (flow = .done ∧ final = middle.stepped ∧
        Progress.running later = .running pending) ∨
      ∃ activation, flow = .suspended activation ∧ final = middle ∧
        Progress.running later = .running (activation :: pending)) :
    Step ⟨machine, pending⟩ ⟨final, later⟩ := by
  unfold execute at executed
  rw [isCall] at executed
  obtain ⟨count, counted, counting, called⟩ := bind_eq_ok.mp executed
  obtain ⟨kind, size, rfl⟩ := countOf_eq_ok counting
  obtain ⟨room, callee, function, known, content, ways⟩ := call_eq_ok called
  have calls : counted.Calls count function :=
    ⟨⟨instruction, present, isCall, kind, size⟩, room, callee, known, content⟩
  rcases ways with ⟨script, rfl, entering⟩ | ⟨native, kind, calling⟩
  · rcases goesOn with ⟨_, rfl, ⟨⟩⟩ | ⟨_, impossible, _⟩
    · exact .enter executes calls script (enter_eq_ok entering).2
    · cases impossible
  · obtain ⟨this, _, ways⟩ := callNative_eq_ok calling
    rcases ways with ⟨result, reached, hosted, finishing, rfl⟩ |
      ⟨entered, receiver?, passed, reached, made, hosted, activating, rfl⟩
    · rcases goesOn with ⟨_, rfl, ⟨⟩⟩ | ⟨_, impossible, _⟩
      · have saved : reached.frames.back? = some (counted.callFrame count) := by
          rw [callHost_left (leftBy_of_ok hosted)]
          exact Array.back?_push
        cases (finishNative_of_some counted.flags.construct result saved).symm.trans finishing
        exact .native executes calls kind hosted
      · cases impossible
    · obtain ⟨rfl, activated⟩ := activate_eq_ok activating
      rcases goesOn with ⟨impossible, _⟩ | ⟨_, equal, rfl, ⟨⟩⟩
      · cases impossible
      · cases equal
        exact .suspend executes calls kind hosted activated

/-- An instruction that calls nothing and lets the run go on. -/
theorem step_of_noCall {machine middle final : Machine} {pending later : List Activation}
    {instruction : Instruction CellId} {flow : Flow}
    (executes : Executes ⟨machine, pending⟩) (present : machine.instruction? = some instruction)
    (noCall : instruction.opcode ≠ .call)
    (executed : execute instruction machine = .ok flow middle)
    (goesOn : (flow = .done ∧ final = middle.stepped ∧
        Progress.running later = .running pending) ∨
      ∃ activation, flow = .suspended activation ∧ final = middle ∧
        Progress.running later = .running (activation :: pending)) :
    Step ⟨machine, pending⟩ ⟨final, later⟩ := by
  rw [execute_of_noCall noCall] at executed
  obtain ⟨_, reached, executed, done⟩ := bind_eq_ok.mp executed
  cases done
  rcases goesOn with ⟨_, rfl, ⟨⟩⟩ | ⟨_, impossible, _⟩
  · by_cases returns : instruction.opcode = .ret
    · rw [executePlain_of_ret returns] at executed
      obtain ⟨operand, frame, _, topmost, saved, rfl⟩ := ret_eq_ok executed
      exact .ret executes present returns topmost saved
    · have judged := local_executePlain instruction machine returns noCall
      exact .plain executes present returns noCall (judged.alike executed).stepped
        (judged.spares _ _ executed).stepped
  · cases impossible

/-- `executeNext` lets the run go on behind an instruction that is over. -/
theorem executeNext_of_done {pending : List Activation} {machine middle : Machine}
    {instruction : Instruction CellId} (present : machine.instruction? = some instruction)
    (executed : execute instruction machine = .ok .done middle) :
    executeNext pending machine = .ok (.running pending) middle.stepped := by
  have mapped : (Sum.inl <$> execute instruction : Action (Flow ⊕ ScriptFault)) machine =
      .ok (.inl .done) middle := bind_of_ok executed
  refine (get_bind _ _).trans ?_
  rw [present]
  exact (bind_of_ok (tryCatch_of_ok mapped)).trans (bind_of_ok (stepOver_eq middle))

/-- `executeNext` has an instruction that is suspended wait for the function it has had entered. -/
theorem executeNext_of_suspended {pending : List Activation} {machine middle : Machine}
    {instruction : Instruction CellId} {activation : Activation}
    (present : machine.instruction? = some instruction)
    (executed : execute instruction machine = .ok (.suspended activation) middle) :
    executeNext pending machine = .ok (.running (activation :: pending)) middle := by
  have mapped : (Sum.inl <$> execute instruction : Action (Flow ⊕ ScriptFault)) machine =
      .ok (.inl (.suspended activation)) middle := bind_of_ok executed
  refine (get_bind _ _).trans ?_
  rw [present]
  exact bind_of_ok (tryCatch_of_ok mapped)

/-- `executeNext` has a script fault of the next instruction go out through the activations, by
`unwind`. -/
theorem executeNext_of_script {pending : List Activation} {machine middle : Machine}
    {instruction : Instruction CellId} {fault : ScriptFault}
    (present : machine.instruction? = some instruction)
    (failed : execute instruction machine = .error (.script fault) middle) :
    executeNext pending machine =
      unwind (fault.passing ⟨middle.current, instruction.opcode⟩) pending middle := by
  have mapped : (Sum.inl <$> execute instruction : Action (Flow ⊕ ScriptFault)) machine =
      .error (.script fault) middle := bind_of_error failed
  refine (get_bind _ _).trans ?_
  rw [present]
  exact @bind_of_ok _ _ _ _ machine middle (Sum.inr fault) (tryCatch_of_error mapped)

/-- `executeNext` ends the run where it is at a fault that is no script fault. -/
theorem executeNext_of_fault {pending : List Activation} {machine middle : Machine}
    {instruction : Instruction CellId} {fault : Fault}
    (present : machine.instruction? = some instruction)
    (failed : execute instruction machine = .error fault middle)
    (other : ∀ inner, fault ≠ .script inner) :
    executeNext pending machine = .error fault middle := by
  have mapped : (Sum.inl <$> execute instruction : Action (Flow ⊕ ScriptFault)) machine =
      .error fault middle := bind_of_error failed
  refine (get_bind _ _).trans ?_
  rw [present]
  refine bind_of_error ((tryCatch_of_error mapped).trans ?_)
  cases fault with
  | script inner => exact absurd rfl (other inner)
  | malformed | breakdown => rfl

/-- The next move, `advance`, of a configuration that executes is its instruction, by `executeNext`.
-/
theorem Executes.advance_eq {configuration : Configuration} (executes : configuration.Executes) :
    advance configuration.pending configuration.machine =
      executeNext configuration.pending configuration.machine := by
  refine (get_bind _ _).trans ?_
  rw [show configuration.machine.nextMove configuration.pending = _ from executes]

/-- A call instruction with a count comes to its call. -/
theorem execute_of_call {instruction : Instruction CellId} {count : Nat} {machine : Machine}
    (isCall : instruction.opcode = .call) (kind : instruction.datum.kind = .number)
    (size : Number.size? instruction.datum.number = some count) :
    execute instruction machine = call count machine := by
  have counted : countOf instruction.datum = pure count := by
    unfold countOf
    rw [kind, size]
  unfold execute
  rw [isCall, counted]
  rfl

/-- The move of an instruction that calls nothing is `executePlain`, and the step behind it. -/
theorem Moves.exists_plain {before after : Configuration} {instruction : Instruction CellId}
    (moves : before.Moves after) (executes : before.Executes)
    (present : before.machine.instruction? = some instruction)
    (noCall : instruction.opcode ≠ .call) :
    ∃ reached, executePlain instruction before.machine = .ok () reached ∧
      after = ⟨reached.stepped, before.pending⟩ := by
  obtain ⟨other, flow, middle, known, executed, goesOn⟩ :=
    executeNext_eq_ok (executes.advance_eq.symm.trans moves)
  cases present.symm.trans known
  rw [execute_of_noCall noCall] at executed
  obtain ⟨_, reached, executed, done⟩ := bind_eq_ok.mp executed
  cases done
  obtain ⟨final, later⟩ := after
  rcases goesOn with ⟨_, rfl, ⟨⟩⟩ | ⟨_, impossible, _⟩
  · exact ⟨middle, executed, rfl⟩
  · cases impossible

/-- The move of a call instruction is its call. -/
theorem Moves.exists_call {before after : Configuration} {count : Nat} {function : FunctionId}
    (moves : before.Moves after) (executes : before.Executes)
    (calls : before.machine.Calls count function) :
    ∃ flow middle, call count before.machine = .ok flow middle ∧
      ((flow = .done ∧ after = ⟨middle.stepped, before.pending⟩) ∨
        ∃ activation, flow = .suspended activation ∧
          after = ⟨middle, activation :: before.pending⟩) := by
  obtain ⟨instruction, flow, middle, present, executed, goesOn⟩ :=
    executeNext_eq_ok (executes.advance_eq.symm.trans moves)
  obtain ⟨other, known, isCall, kind, size⟩ := calls.instruction
  cases known.symm.trans present
  rw [execute_of_call isCall kind size] at executed
  refine ⟨flow, middle, executed, ?_⟩
  obtain ⟨final, later⟩ := after
  rcases goesOn with ⟨done, rfl, ⟨⟩⟩ | ⟨activation, suspended, rfl, ⟨⟩⟩
  · exact .inl ⟨done, rfl⟩
  · exact .inr ⟨activation, suspended, rfl⟩

/-- The move of a call of a script function enters it on the machine that is `ready`. -/
theorem Moves.exists_enter {before after : Configuration} {count : Nat} {function : FunctionId}
    (moves : before.Moves after) (executes : before.Executes)
    (calls : before.machine.Calls count function)
    (script : (before.machine.heap.function function).native = none) :
    ∃ middle, enter function (before.machine.argumentCells count) before.machine.flags.construct
        (before.machine.ready count function) = .ok () middle ∧
      after = ⟨middle.stepped, before.pending⟩ := by
  obtain ⟨flow, middle, called, goesOn⟩ := moves.exists_call executes calls
  obtain ⟨_, callee, function', known, content, ways⟩ := call_eq_ok called
  obtain ⟨callee', known', content'⟩ := calls.callee
  cases known.symm.trans known'
  cases content.symm.trans content'
  rcases ways with ⟨_, rfl, entering⟩ | ⟨native, kind, _⟩
  · rcases goesOn with ⟨_, rfl⟩ | ⟨_, impossible, _⟩
    · exact ⟨middle, entering, rfl⟩
    · cases impossible
  · cases script.symm.trans kind

/-- A move that lets the run go on is a `Step`, one of the six. -/
theorem Moves.step {before after : Configuration} (moves : before.Moves after) :
    before.Step after := by
  obtain ⟨machine, pending⟩ := before
  obtain ⟨final, later⟩ := after
  have ends : advance pending machine = .ok (.running later) final := moves
  have ends := (get_bind _ _).symm.trans ends
  cases move : machine.nextMove pending with
  | finish =>
    rw [move] at ends
    cases ends
  | leave =>
    rw [move] at ends
    exact absurd ends (unwind_ne_ok _ _ _ _ _)
  | resume activation rest =>
    rw [move] at ends
    obtain ⟨rfl, construct, operand, frame, waiting, topmost, enough, saved, rfl⟩ :=
      resume_eq_running ends
    obtain ⟨rfl, reached⟩ := nextMove_eq_resume move
    exact .resume reached waiting topmost enough saved
  | execute =>
    rw [move] at ends
    obtain ⟨instruction, flow, middle, present, executed, goesOn⟩ := executeNext_eq_ok ends
    by_cases isCall : instruction.opcode = .call
    · exact step_of_call move present isCall executed goesOn
    · exact step_of_noCall move present isCall executed goesOn

end Configuration

namespace Machine

/-! ### What calls keep -/

/-- A machine `Calls` one function at a time. -/
theorem Calls.unique {machine : Machine} {count count' : Nat}
    {function function' : FunctionId}
    (calls : machine.Calls count function) (calls' : machine.Calls count' function') :
    count = count' ∧ function = function' := by
  obtain ⟨instruction, present, _, _, size⟩ := calls.instruction
  obtain ⟨instruction', present', _, _, size'⟩ := calls'.instruction
  cases present.symm.trans present'
  cases size.symm.trans size'
  obtain ⟨callee, known, content⟩ := calls.callee
  obtain ⟨callee', known', content'⟩ := calls'.callee
  cases known.symm.trans known'
  cases content.symm.trans content'
  exact ⟨rfl, rfl⟩

theorem Calls.opcode {machine : Machine} {count : Nat} {function : FunctionId}
    (calls : machine.Calls count function) {instruction : Instruction CellId}
    (present : machine.instruction? = some instruction) : instruction.opcode = .call := by
  obtain ⟨other, known, isCall, _⟩ := calls.instruction
  cases known.symm.trans present
  exact isCall

theorem Calls.operandsTaken {machine : Machine} {count : Nat} {function : FunctionId}
    (calls : machine.Calls count function) {instruction : Instruction CellId}
    (present : machine.instruction? = some instruction) :
    instruction.operandsTaken = count + 1 ∧ instruction.receiversTaken = 0 := by
  obtain ⟨other, known, isCall, _, size⟩ := calls.instruction
  cases known.symm.trans present
  unfold Instruction.operandsTaken Instruction.receiversTaken Datum.countOrZero
  rw [isCall, size]
  exact ⟨rfl, rfl⟩

/-- A call takes its arguments and its callee, and `Spares` the rest. -/
theorem spares_ready (machine : Machine) (count : Nat) (function : FunctionId) :
    Spares (count + 1) 0 machine (machine.ready count function) :=
  (Spares.shrink machine (count + 1)).congr rfl rfl rfl rfl

theorem spares_entered {machine after : Machine} {count : Nat} {function : FunctionId}
    (entered : Entered (machine.ready count function) after) :
    Spares (count + 1) 0 machine after := by
  have spares := (spares_ready machine count function).trans entered.spares
  rwa [Nat.zero_add] at spares

/-- In `callHost` a native function finds the frame of its call on top, and the stacks of the caller
without what the call has taken. -/
theorem callHost_ready {native : Native} {receiver? : Option CellId} {arguments : List CellId}
    {machine middle : Machine} {count : Nat} {function : FunctionId} {call : HostCall}
    (hosted : callHost native receiver? arguments (machine.ready count function) =
      .ok call middle) :
    middle.frames = machine.frames.push (machine.callFrame count) ∧
      middle.operands = machine.operands.shrink (machine.operands.size - (count + 1)) ∧
      middle.receivers = machine.receivers ∧ middle.scopes = machine.scopes ∧
      middle.setting = machine.setting := by
  rw [callHost_left (leftBy_of_ok hosted)]
  exact ⟨rfl, rfl, rfl, rfl, rfl⟩

theorem spares_activated {native : Native} {receiver? : Option CellId} {arguments : List CellId}
    {machine middle after : Machine} {count : Nat} {function : FunctionId} {call : HostCall}
    (hosted : callHost native receiver? arguments (machine.ready count function) = .ok call middle)
    (activated : Activated middle after) : Spares (count + 1) 0 machine after := by
  obtain ⟨_, operands, receivers, _⟩ := callHost_ready hosted
  have spares := (spares_ready machine count function).trans
    (activated.spares.congr operands.symm receivers.symm rfl rfl)
  rwa [Nat.zero_add] at spares

/-- A native call that is over at once has only taken its arguments and its callee, and `Spares` the
rest. -/
theorem spares_nativeReturn {native : Native} {receiver? : Option CellId}
    {arguments : List CellId} {machine middle : Machine} {count : Nat} {function : FunctionId}
    {call : HostCall} {construct : Bool} {result : CellId}
    (hosted : callHost native receiver? arguments (machine.ready count function) =
      .ok call middle) :
    Spares (count + 1) 0 machine
      (nativeReturn construct result (machine.callFrame count) middle) := by
  rw [callHost_left (leftBy_of_ok hosted)]
  have operands : ((machine.operands.shrink (machine.operands.size - (count + 1))).shrink
      (machine.operands.size - (count + 1))) =
      machine.operands.shrink (machine.operands.size - (count + 1)) := by
    apply Array.toList_inj.mp
    rw [Array.toList_shrink, Array.toList_shrink, List.take_take, Nat.min_self]
  have receivers : machine.receivers.shrink machine.receivers.size = machine.receivers := by
    apply Array.toList_inj.mp
    rw [Array.toList_shrink, ← Array.length_toList, List.take_length]
  have pushed := (spares_ready machine count function).trans
    (Spares.push (machine.ready count function) { cell := result })
  rw [Nat.zero_add] at pushed
  cases construct with
  | false => exact pushed.congr rfl rfl (congrArg (Array.push · _) operands) receivers
  | true =>
    have more := pushed.trans (Spares.pushReceiver _ result)
    rw [Nat.zero_add] at more
    exact more.congr rfl rfl (congrArg (Array.push · _) operands)
      (congrArg (Array.push · _) receivers)

theorem alike_nativeReturn {native : Native} {receiver? : Option CellId}
    {arguments : List CellId} {machine middle : Machine} {count : Nat} {function : FunctionId}
    {call : HostCall} {construct : Bool} {result : CellId}
    (hosted : callHost native receiver? arguments (machine.ready count function) =
      .ok call middle) :
    machine.Alike (nativeReturn construct result (machine.callFrame count) middle) := by
  rw [callHost_left (leftBy_of_ok hosted)]
  refine ⟨?_, rfl, .refl _⟩
  exact Array.pop_push

end Machine

end ScriptEngine
