/-
This file is about where a run goes on behind a jump and behind a call. Both put the program counter
one in front of their target, and the move then goes on by one, unless the counter is at the end of
the run. So control reaches its target with one exception: a run that is sent to the address right
behind its end is over. In a program that was assembled the targets are the addresses of the labels
that its lines name, and they stay so in every configuration that a run of the program comes to.
-/

import ScriptEngine.Proofs.Assembly.Labels
import ScriptEngine.Proofs.Leaving

namespace ScriptEngine

open Machine Relation

/-! ### Functions keep their entries -/

namespace Heap

/-- A function is a script function with this entry. -/
def StartsAt (heap : Heap) (function : FunctionId) (entry : Int64) : Prop :=
  ∃ body, heap.functions[function.index]? = some body ∧ body.native = none ∧ body.entry = entry

variable {before after heap : Heap} {function : FunctionId} {entry : Int64}

theorem StartsAt.function_eq (starts : heap.StartsAt function entry) :
    (heap.function function).native = none ∧ (heap.function function).entry = entry := by
  obtain ⟨body, found, script, isEntry⟩ := starts
  unfold Heap.function
  rw [Array.getD_eq_getD_getElem?, found]
  exact ⟨script, isEntry⟩

theorem StartsAt.kept (starts : before.StartsAt function entry)
    (keeps : before.KeepsFunctions after) : after.StartsAt function entry := by
  obtain ⟨body, present, script, isEntry⟩ := starts
  obtain ⟨properties, present⟩ := keeps _ body present
  exact ⟨_, present, script, isEntry⟩

/-- No `Change` of memory changes where a script function `StartsAt`. -/
theorem StartsAt.changes (starts : before.StartsAt function entry)
    (changes : ReflTransGen Change before after) : after.StartsAt function entry :=
  starts.kept (keepsFunctions_of_changes changes)

end Heap

variable {function : FunctionId} {entry : Int64}

namespace Configuration

variable {before after first last configuration : Configuration} {passed : List Configuration}

theorem Moves.startsAt (moves : before.Moves after)
    (starts : before.machine.heap.StartsAt function entry) :
    after.machine.heap.StartsAt function entry := by
  have keeps := keepsFunctions_of_acts (acts_advance before.pending before.machine)
  rw [leftBy_of_ok moves] at keeps
  exact starts.kept keeps

theorem Run.startsAt (run : Run first passed last)
    (starts : first.machine.heap.StartsAt function entry) :
    last.machine.heap.StartsAt function entry := by
  induction run with
  | done => exact starts
  | move moves _ inductionHypothesis => exact inductionHypothesis (moves.startsAt starts)

/-! ### Behind a jump and behind a call -/

end Configuration

/-- Where a run goes on that is sent to an address: there, but at its end if the address is the one
right behind the end. -/
def landing (stop target : Int64) : Int64 :=
  if target = stop + 1 then stop else target

theorem Machine.current_stepped_eq (machine : Machine) :
    machine.stepped.current = landing machine.stop (machine.current + 1) := by
  unfold landing
  by_cases atEnd : machine.current = machine.stop
  · rw [stepped, if_pos atEnd, if_pos (congrArg (· + 1) atEnd), atEnd]
  · rw [current_stepped atEnd, if_neg fun same => atEnd ((Int64.add_left_inj 1).mp same)]

/-- Whether an opcode jumps with some flags. -/
def Opcode.jumpsWith (flags : Flags) : Opcode → Bool
  | .jmp => true
  | .jmpz => flags.zero
  | .jmpnz => !flags.zero
  | _ => false

theorem Opcode.jumpsWith_iff {flags : Flags} {opcode : Opcode} :
    opcode.jumpsWith flags = true ↔
      opcode = .jmp ∨ (opcode = .jmpz ∧ flags.zero = true) ∨
        (opcode = .jmpnz ∧ flags.zero = false) := by
  cases opcode <;> simp [jumpsWith]

theorem Opcode.isJump_of_jumpsWith {flags : Flags} {opcode : Opcode}
    (jumps : opcode.jumpsWith flags = true) : opcode.isJump = true := by
  rcases jumpsWith_iff.mp jumps with rfl | ⟨rfl, _⟩ | ⟨rfl, _⟩ <;> rfl

namespace Configuration

variable {configuration : Configuration}

/-- The next move takes a jump with this offset, as `Opcode.jumpsWith` has it. -/
structure Jumps (configuration : Configuration) (offset : Int64) : Prop where
  executes : configuration.Executes
  instruction : ∃ instruction, configuration.machine.instruction? = some instruction ∧
    instruction.opcode.jumpsWith configuration.machine.flags = true ∧ instruction.jump = offset

/-- The next move calls a function, as the limit of frames allows, on a machine that has scopes. -/
structure CallsNext (configuration : Configuration) (function : FunctionId) : Prop where
  executes : configuration.Executes
  calls : ∃ count, configuration.machine.Calls count function ∧
    (configuration.machine.calling count).overLimit = false
  attached : configuration.machine.attached = true

/-- Outside of all activations a run `Executes` until it comes to its end. -/
theorem executes_of_running (outermost : configuration.pending = [])
    (running : configuration.machine.current ≠ configuration.machine.stop) :
    configuration.Executes := by
  unfold Executes
  rw [outermost, nextMove, if_neg running]

/-- The next move sends the run to an address. -/
def GoesTo (configuration : Configuration) (target : Int64) : Prop :=
  ∃ after, configuration.Moves ⟨after, configuration.pending⟩ ∧
    after.current = landing configuration.machine.stop target

/-- An instruction that leaves the program counter in front of an address sends the run there,
`GoesTo`. -/
theorem goesTo_of_done {instruction : Instruction CellId} {middle : Machine} {target : Int64}
    (executes : configuration.Executes)
    (present : configuration.machine.instruction? = some instruction)
    (executed : execute instruction configuration.machine = .ok .done middle)
    (inFront : middle.current + 1 = target) : configuration.GoesTo target := by
  have moves : configuration.Moves ⟨middle.stepped, configuration.pending⟩ :=
    executes.advance_eq.trans (executeNext_of_done present executed)
  have stop : middle.stop = configuration.machine.stop :=
    congrArg Setting.stop ((setting_stepped middle).symm.trans moves.setting)
  exact ⟨_, moves, by rw [current_stepped_eq, stop, inFront]⟩

theorem execute_of_jumpsWith {instruction : Instruction CellId} {machine : Machine}
    (jumps : instruction.opcode.jumpsWith machine.flags = true) :
    execute instruction machine =
      .ok .done { machine with current := machine.current + instruction.jump } := by
  have noCall : instruction.opcode ≠ .call := by
    intro isCall
    rw [isCall] at jumps
    cases jumps
  have jumped : executePlain instruction machine = jump instruction machine := by
    unfold executePlain
    rcases Opcode.jumpsWith_iff.mp jumps with isOpcode | ⟨isOpcode, zero⟩ | ⟨isOpcode, zero⟩
    · rw [isOpcode]
    · rw [isOpcode]
      refine (get_bind _ _).trans ?_
      rw [zero]
      rfl
    · rw [isOpcode]
      refine (get_bind _ _).trans ?_
      rw [zero]
      rfl
  rw [execute_of_noCall noCall]
  exact bind_of_ok jumped

/-- The next move of a configuration that `Jumps` goes to where the offset leads, `GoesTo`. -/
theorem Jumps.goesTo {offset : Int64} (jumps : configuration.Jumps offset) :
    configuration.GoesTo (configuration.machine.current + offset + 1) := by
  obtain ⟨instruction, present, taken, rfl⟩ := jumps.instruction
  exact goesTo_of_done jumps.executes present (execute_of_jumpsWith taken) rfl

/-- A function that is entered leaves the program counter in front of its entry. -/
theorem current_of_enter {machine final : Machine} {arguments : List CellId} {construct : Bool}
    (starts : machine.heap.StartsAt function entry)
    (ends : enter function arguments construct machine = .ok () final) :
    final.current = entry - 1 := by
  have opened {machine : Machine} (starts : machine.heap.StartsAt function entry)
      (ends : enter function arguments false machine = .ok () final) :
      final.current = entry - 1 := by
    obtain ⟨_, opened, pushed, ended⟩ := bind_eq_ok.mp ends
    cases (onScopes_of_attached (enter_false_eq_ok ends).1 _).symm.trans pushed
    obtain ⟨_, bound, _, ended⟩ := bind_eq_ok.mp ((get_bind _ _).symm.trans ended)
    cases ended
    exact congrArg (· - 1) starts.function_eq.2
  cases construct with
  | false => exact opened starts ends
  | true =>
    -- The new receiver of a constructor call is made before the entry is read.
    obtain ⟨heap, cell, changes, made⟩ := pushNewReceiver_eq function machine
    exact opened (starts.changes changes) ((bind_of_ok made).symm.trans ends)

/-- The next move of a configuration that `CallsNext` a script function goes to its entry, `GoesTo`.
-/
theorem CallsNext.goesTo (calls : configuration.CallsNext function)
    (starts : configuration.machine.heap.StartsAt function entry) : configuration.GoesTo entry := by
  obtain ⟨executes, ⟨count, calls, under⟩, attached⟩ := calls
  obtain ⟨instruction, present, isCall, kind, size⟩ := calls.instruction
  obtain ⟨callee, known, content⟩ := calls.callee
  have usable : (configuration.machine.ready count function).attached = true := attached
  obtain ⟨entered, entering⟩ := enter_of_attached usable function
    (configuration.machine.argumentCells count) configuration.machine.flags.construct
  have called := call_of_callable calls.room known content under
  rw [starts.function_eq.1] at called
  have executed : execute instruction configuration.machine = .ok .done entered :=
    (execute_of_call isCall kind size).trans (called.trans (bind_of_ok entering))
  have prepared := starts.changes (Heap.changes_prepare function configuration.machine.heap)
  refine goesTo_of_done executes present executed ?_
  rw [current_of_enter (by exact prepared) entering, Int64.sub_add_cancel]

end Configuration

/-! ### A program that is loaded -/

namespace Heap

variable {heap : Heap} {cell : CellId}

/-- A cell holds a function. -/
def HoldsFunction (heap : Heap) (cell : CellId) (body : FunctionBody) : Prop :=
  ∃ function : FunctionId, heap.cells[cell.index]? = some { content := .function function } ∧
    heap.functions[function.index]? = some body

theorem holdsFunction_allocateFunction (body : FunctionBody) (heap : Heap) :
    (allocateFunction body heap).2.HoldsFunction (allocateFunction body heap).1 body :=
  ⟨⟨heap.functions.size⟩, Array.getElem?_push_size, Array.getElem?_push_size⟩

theorem HoldsFunction.allocateFunction {body : FunctionBody} (holds : heap.HoldsFunction cell body)
    (made : FunctionBody) : (allocateFunction made heap).2.HoldsFunction cell body := by
  obtain ⟨function, present, found⟩ := holds
  have hasCell := (Array.getElem?_eq_some_iff.mp present).1
  have hasFunction := (Array.getElem?_eq_some_iff.mp found).1
  refine ⟨function, ?_, ?_⟩
  · exact (Configuration.getElem?_push_of_lt hasCell).trans present
  · exact (Configuration.getElem?_push_of_lt hasFunction).trans found

end Heap

/-- The function that a declaration declares. -/
def Declaration.body (declaration : Declaration) : FunctionBody :=
  { name := declaration.name, params := declaration.params, entry := declaration.entry,
    constructs := declaration.constructs }

namespace Machine

theorem holdsFunction_allocateDeclarations {heap : Heap} {cell : CellId} {body : FunctionBody}
    (holds : heap.HoldsFunction cell body) (declarations : List Declaration) :
    (allocateDeclarations declarations heap).2.HoldsFunction cell body := by
  induction declarations generalizing heap with
  | nil => exact holds
  | cons declaration rest inductionHypothesis =>
    unfold allocateDeclarations
    rw [List.mapM_cons]
    exact inductionHypothesis (holds.allocateFunction _)

/-- Every declaration of a program gets a cell with its function. -/
theorem forall₂_allocateDeclarations (declarations : List Declaration) (heap : Heap) :
    List.Forall₂ (fun declaration cell =>
        (allocateDeclarations declarations heap).2.HoldsFunction cell declaration.body)
      declarations (allocateDeclarations declarations heap).1 := by
  induction declarations generalizing heap with
  | nil => exact .nil
  | cons declaration rest inductionHypothesis =>
    unfold allocateDeclarations
    rw [List.mapM_cons]
    refine .cons ?_ (inductionHypothesis _)
    exact holdsFunction_allocateDeclarations
      (Heap.holdsFunction_allocateFunction declaration.body heap) rest

/-- The cell that loading a program makes for one of its declarations. -/
def itemCell (machine : Machine) (program : Program) (index : Nat) : CellId :=
  (allocateDeclarations program.items.toList machine.heap).1.toArray.getD index default

theorem getElem?_code_load (machine : Machine) (program : Program) (pc : Nat) :
    (machine.load program).code[pc]? =
      program.code[pc]?.map fun instruction => instruction.map (machine.itemCell program) :=
  Array.getElem?_map ..

/-- The `itemCell` of a declaration `HoldsFunction`. -/
theorem holdsFunction_itemCell {program : Program} {index : Nat} {declaration : Declaration}
    (machine : Machine) (item : program.items[index]? = some declaration) :
    (machine.load program).heap.HoldsFunction (machine.itemCell program index)
      declaration.body := by
  have made := forall₂_allocateDeclarations program.items.toList machine.heap
  obtain ⟨inside, rfl⟩ := Array.getElem?_eq_some_iff.mp item
  have room : index < (allocateDeclarations program.items.toList machine.heap).1.length :=
    made.length_eq ▸ inside
  unfold itemCell
  rw [Array.getD_eq_getD_getElem?, List.getElem?_toArray, List.getElem?_eq_getElem room]
  exact made.get inside room

/-- The instruction at an address pushes a function. -/
def Pushes (machine : Machine) (pc : Nat) (function : FunctionId) : Prop :=
  ∃ instruction cell, machine.code[pc]? = some instruction ∧ instruction.opcode = .push ∧
    instruction.datum = .ofObject (some cell) ∧ machine.heap.content cell = .function function

/-- An instruction that refers to a declaration `Pushes` its function once the program is loaded. -/
theorem exists_pushes_load {program : Program} {pc index : Nat} {instruction : Instruction Nat}
    {declaration : Declaration} (machine : Machine)
    (present : program.code[pc]? = some instruction) (isPush : instruction.opcode = .push)
    (refers : instruction.datum = .ofObject (some index))
    (item : program.items[index]? = some declaration) :
    ∃ function, (machine.load program).Pushes pc function ∧
      (machine.load program).heap.StartsAt function declaration.entry := by
  obtain ⟨function, holds, found⟩ := holdsFunction_itemCell machine item
  refine ⟨function, ⟨instruction.map (machine.itemCell program), machine.itemCell program index,
    ?_, isPush, ?_, ?_⟩, _, found, rfl, rfl⟩
  · rw [getElem?_code_load, present, Option.map_some]
  · rw [Instruction.map, refers]
    rfl
  · unfold Heap.content Heap.cell
    rw [Array.getD_eq_getD_getElem?, holds]
    rfl

end Machine

/-! ### Labels are reached -/

namespace Assembly

/-- The line of a source whose instruction is at an address. -/
def lineAt? (source : Text) (pc : Int64) : Option (List Token) :=
  if 0 ≤ pc then (codeLines (linesOf source))[pc.toNatClampNeg]? else none

end Assembly

namespace Configuration

open Assembly

variable {source label : Text} {program : Program} {machine : Machine} {line : List Token}
  {last : Configuration} {passed : List Configuration}

/-- In the run of a source a jump to a label goes to its address, `GoesTo`. -/
theorem Run.goesTo_of_jump {opcode : Opcode} (assembles : assemble source = .ok program)
    (run : Run ⟨machine.load program, []⟩ passed last) (executes : last.Executes)
    (found : lineAt? source last.machine.current = some line)
    (isOpcode : opcodeOf? line = some opcode)
    (taken : opcode.jumpsWith last.machine.flags = true)
    (names : targetLabel? (operandOf line) = some label) :
    ∃ address, addressOf? (linesOf source) label = some address ∧
      last.GoesTo (Int64.ofNat address) := by
  unfold lineAt? at found
  split at found
  case isFalse => cases found
  case isTrue positive =>
    obtain ⟨address, instruction, isAddress, present, rfl, leads⟩ :=
      target_of_assemble assembles found isOpcode (Opcode.isJump_of_jumpsWith taken) names
    have code : last.machine.code = (machine.load program).code :=
      congrArg Setting.code run.setting.2
    have next : last.machine.instruction? = some (instruction.map (machine.itemCell program)) := by
      unfold Machine.instruction? Machine.instructionAt?
      rw [if_pos positive, code, getElem?_code_load, present, Option.map_some]
    have jumps : last.Jumps instruction.jump := ⟨executes, _, next, taken, rfl⟩
    refine ⟨address, isAddress, ?_⟩
    rw [← leads, ProgramOf.jumpTarget, Int64.ofNat_toNatClampNeg _ positive]
    exact jumps.goesTo

/-- In the run of a source a call of a function that is declared with a label goes to its address,
`GoesTo`. -/
theorem Run.goesTo_of_call {pc : Nat} (assembles : assemble source = .ok program)
    (run : Run ⟨machine.load program, []⟩ passed last)
    (found : (codeLines (linesOf source))[pc]? = some line)
    (isPush : opcodeOf? line = some .push) (names : entryLabel? (operandOf line) = some label) :
    ∃ address function, addressOf? (linesOf source) label = some address ∧
      (machine.load program).Pushes pc function ∧
      (last.CallsNext function → last.GoesTo (Int64.ofNat address)) := by
  obtain ⟨address, instruction, index, declaration, isAddress, present, isPush, refers, item,
    entry⟩ := entry_of_assemble assembles found isPush names
  obtain ⟨function, pushes, starts⟩ := exists_pushes_load machine present isPush refers item
  exact ⟨address, function, isAddress, pushes,
    fun calls => calls.goesTo (run.startsAt (entry ▸ starts))⟩

/-- Control reaches its target, `GoesTo`, and only the address right behind the end of the run is
missed, where the run is over instead. This is so for every jump that is taken, which `Jumps`, and
for every call of a script function, which `CallsNext`. In a run of a source that was accepted the
targets are the addresses, `addressOf?`, of the labels that its lines name. -/
theorem goesTo_target (configuration : Configuration) :
    (∀ offset, configuration.Jumps offset →
      configuration.GoesTo (configuration.machine.current + offset + 1)) ∧
    (∀ function entry, configuration.CallsNext function →
      configuration.machine.heap.StartsAt function entry → configuration.GoesTo entry) ∧
    ∀ source program (machine : Machine) passed, assemble source = .ok program →
      Run ⟨machine.load program, []⟩ passed configuration →
      (∀ line opcode label, lineAt? source configuration.machine.current = some line →
        configuration.Executes → opcodeOf? line = some opcode →
        opcode.jumpsWith configuration.machine.flags = true →
        targetLabel? (operandOf line) = some label →
        ∃ address, addressOf? (linesOf source) label = some address ∧
          configuration.GoesTo (Int64.ofNat address)) ∧
      ∀ (pc : Nat) line label, (codeLines (linesOf source))[pc]? = some line →
        opcodeOf? line = some .push → entryLabel? (operandOf line) = some label →
        ∃ address function, addressOf? (linesOf source) label = some address ∧
          (machine.load program).Pushes pc function ∧
          (configuration.CallsNext function → configuration.GoesTo (Int64.ofNat address)) :=
  ⟨fun _ => Jumps.goesTo, fun _ _ => CallsNext.goesTo,
    fun _ _ _ _ assembles run =>
      ⟨fun _ _ _ found executes isOpcode taken names =>
          run.goesTo_of_jump assembles executes found isOpcode taken names,
        fun _ _ _ found isPush names => run.goesTo_of_call assembles found isPush names⟩⟩

end Configuration

namespace Host

open Assembly ScriptEngine.Configuration

/-- A source that calls a function and jumps over an instruction. -/
def reachingSource : Text :=
  [".entry start",
    "f: push 7",
    "ret",
    "start: push func f() @f",
    "call 0",
    "jmpnz @done",
    "noop",
    "done: push 1"].flatMap fun line => Text.ofString line ++ Text.ofString "\n"

/-- What the source denotes. -/
def reachingProgram : Program where
  code := #[
    { opcode := .push, datum := .ofNumber (Number.ofNat 7) },
    { opcode := .ret },
    { opcode := .push, datum := .ofObject (some 0) },
    { opcode := .call, datum := .ofNumber (Number.ofNat 0) },
    { opcode := .jmpnz, jump := 1 },
    { opcode := .noop },
    { opcode := .push, datum := .ofNumber (Number.ofNat 1) }]
  items := #[{ name := "f", entry := 0 }]
  start := 2
  stop := 7

/-- A line of the source with an instruction. -/
def reachingLine (pc : Int64) : List Token :=
  (lineAt? reachingSource pc).getD []

theorem goesTo_target_sample :
    assemble reachingSource = .ok reachingProgram ∧
      (startOf reachingProgram).machine.Pushes 2 ⟨7⟩ ∧
      ((startOf reachingProgram).after 1).CallsNext ⟨7⟩ ∧
      ((startOf reachingProgram).after 1).GoesTo 0 ∧
      ((startOf reachingProgram).after 4).GoesTo 6 := by
  have assembles : assemble reachingSource = .ok reachingProgram := by decide +kernel
  have declares : (codeLines (linesOf reachingSource))[2]? = some (reachingLine 2) ∧
      opcodeOf? (reachingLine 2) = some .push ∧
      entryLabel? (operandOf (reachingLine 2)) = some (Text.ofString "f") ∧
      addressOf? (linesOf reachingSource) "f" = some 0 := by decide +kernel
  have jumping : lineAt? reachingSource ((startOf reachingProgram).after 4).machine.current =
        some (reachingLine 4) ∧
      opcodeOf? (reachingLine 4) = some .jmpnz ∧
      targetLabel? (operandOf (reachingLine 4)) = some (Text.ofString "done") ∧
      addressOf? (linesOf reachingSource) "done" = some 6 := by decide +kernel
  have calls : ((startOf reachingProgram).after 1).CallsNext ⟨7⟩ := by
    refine ⟨executes_of_running ?_ ?_, ⟨0, ⟨⟨{ opcode := .call, datum := .ofNumber 0 },
      ?_, rfl, rfl, ?_⟩, ?_, ⟨11⟩, ?_, ?_⟩, ?_⟩, ?_⟩ <;> decide +kernel
  obtain ⟨entry, function, isEntry, pushes, reaches⟩ := ((goesTo_target _).2.2 _ _ _ _ assembles
    (run_after (startOf reachingProgram) 1 (by decide +kernel))).2 _ _ _ declares.1 declares.2.1
      declares.2.2.1
  obtain ⟨address, isAddress, jumps⟩ := ((goesTo_target _).2.2 _ _ _ _ assembles
    (run_after (startOf reachingProgram) 4 (by decide +kernel))).1 _ _ _ jumping.1
      (executes_of_running (by decide +kernel) (by decide +kernel)) jumping.2.1 (by decide +kernel)
      jumping.2.2.1
  have isFunction : function = ⟨7⟩ := by
    obtain ⟨instruction, cell, present, _, refers, content⟩ := pushes
    have known : (startOf reachingProgram).machine.code[2]? =
        some { opcode := .push, datum := .ofObject (some ⟨11⟩) } := by decide +kernel
    cases known.symm.trans present
    cases refers
    have held : (startOf reachingProgram).machine.heap.content ⟨11⟩ = .function ⟨7⟩ := by
      decide +kernel
    exact Content.function.inj (content.symm.trans held)
  subst isFunction
  cases declares.2.2.2.symm.trans isEntry
  cases jumping.2.2.2.symm.trans isAddress
  exact ⟨assembles, pushes, calls, reaches calls, jumps⟩

/-- A source that jumps to the label right behind its end. -/
def skippingSource : Text :=
  [".entry start",
    ".end stop",
    "start: jmp @f",
    "stop: noop",
    "f: push 5",
    "leave"].flatMap fun line => Text.ofString line ++ Text.ofString "\n"

/-- What the source denotes. -/
def skippingProgram : Program where
  code := #[
    { opcode := .jmp, jump := 1 },
    { opcode := .noop },
    { opcode := .push, datum := .ofNumber (Number.ofNat 5) },
    { opcode := .leave }]
  start := 0
  stop := 1

/-- A jump to the label right behind the end of `skippingSource` does not lead there: the run is
over instead. -/
theorem over_before_label :
    (assemble skippingSource = .ok skippingProgram ∧
      addressOf? (linesOf skippingSource) "f" = some 2 ∧
      (lineAt? skippingSource (startOf skippingProgram).machine.current).bind
        (fun line => targetLabel? (operandOf line)) = some (Text.ofString "f")) ∧
    ((startOf skippingProgram).Jumps 1 ∧
      (startOf skippingProgram).machine.current + 1 + 1 = 2 ∧
      (startOf skippingProgram).Moves ((startOf skippingProgram).after 1) ∧
      ((startOf skippingProgram).after 1).machine.current = 1) ∧
    ((startOf skippingProgram).after 1).machine.stop = 1 ∧
    (Machine.run (fun _ count => count + 1) 10 0 (startOf skippingProgram).machine).1 =
      .finished none ∧
    (Machine.run (fun _ count => count + 1) 10 0 (startOf skippingProgram).machine).2.1 = 1 := by
  have jumps : (startOf skippingProgram).Jumps 1 :=
    ⟨rfl, { opcode := .jmp, jump := 1 }, by decide +kernel, rfl, rfl⟩
  exact ⟨by decide +kernel, ⟨jumps, by decide +kernel, moves_of_next? (by decide +kernel),
    by decide +kernel⟩, by decide +kernel⟩

end Host

end ScriptEngine
