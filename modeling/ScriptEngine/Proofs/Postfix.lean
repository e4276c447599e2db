/-
This file is about expressions. An expression is written down operands first, left before right, and
its operator last; the machine that comes to this code works through it and goes on behind it with
the value of the expression on top of its operands. Constants and results are put into new cells,
while a variable is pushed as the cell that it is bound to. No operator writes, so the right operand
finds everything as the left one did.
-/

import ScriptEngine.Proofs.Nesting
import ScriptEngine.Proofs.PropertyAccess
import ScriptEngine.Proofs.Rendering

namespace ScriptEngine

/-! ### Expressions -/

/-- The values that are written into an expression. -/
inductive Constant where
  | null
  | number (value : Float)
  | text (value : Text)
  | bool (value : Bool)
  deriving DecidableEq

/-- The operators that calculate from one operand. -/
inductive UnaryOperator where
  | not
  | complement
  deriving DecidableEq, Repr

/-- Expressions over the variables of a script. -/
inductive Expression where
  | constant (value : Constant)
  | named (name : Text)
  | unary (operator : UnaryOperator) (operand : Expression)
  | binary (operator : BinaryOperator) (left right : Expression)

/-- The value of a constant; truth values are numbers. -/
def Constant.content : Constant → Content
  | .null => .null
  | .number value => .number value
  | .text value => .text value
  | .bool value => .ofBool value

/-- What an operator makes of a 32-bit integer. -/
def UnaryOperator.ofInteger : UnaryOperator → Int32 → Content
  | .not, value => .ofBool (value == 0)
  | .complement, value => .ofInt32 (~~~value)

/-- The result of an operator of one operand; what denotes no number gives undefined. -/
def Heap.unary (heap : Heap) (operator : UnaryOperator) (operand : Content) : Content :=
  match heap.reparse operand with
  | .number value => operator.ofInteger (Number.toInt32 value)
  | other => other

namespace Expression

/-- The names of the variables of an expression. -/
def names : Expression → List Text
  | .constant _ => []
  | .named name => [name]
  | .unary _ operand => operand.names
  | .binary _ left right => left.names ++ right.names

/-- The value of an expression, given the memory and the values of the variables. -/
def value (heap : Heap) (assigned : Text → Content) : Expression → Content
  | .constant value => value.content
  | .named name => assigned name
  | .unary operator operand => heap.unary operator (operand.value heap assigned)
  | .binary operator left right =>
    heap.binary operator (left.value heap assigned) (right.value heap assigned)

end Expression

/-! ### Code -/

/-- An operand that pushes a constant. -/
def Datum.Denotes {Reference : Type} (datum : Datum Reference) : Constant → Prop
  | .null => datum.kind = .null
  | .number value => datum.kind = .number ∧ datum.number = value
  | .text value => datum.kind = .text ∧ datum.text = value
  | .bool value => datum.kind = .bool ∧ datum.bool = value

/-- The opcode of an operator of one operand. -/
def UnaryOperator.opcode : UnaryOperator → Opcode
  | .not => .snot
  | .complement => .bnot

/-- The instructions that work out an expression: those of its operands, and then its operator. -/
inductive Expression.Postfix : Expression → List (Instruction CellId) → Prop where
  | constant {value : Constant} {pushing : Instruction CellId} (isPush : pushing.opcode = .push)
    (denotes : pushing.datum.Denotes value) : Postfix (.constant value) [pushing]
  | named {name : Text} {fetching pushing : Instruction CellId}
    (isFetch : fetching.opcode = .fetch) (names : fetching.datum.Names name)
    (isPush : pushing.opcode = .pushim) : Postfix (.named name) [fetching, pushing]
  | unary {operator : UnaryOperator} {operand : Expression}
    {code : List (Instruction CellId)} {applying : Instruction CellId}
    (first : Postfix operand code) (isOperator : applying.opcode = operator.opcode) :
    Postfix (.unary operator operand) (code ++ [applying])
  | binary {operator : BinaryOperator} {left right : Expression}
    {leftCode rightCode : List (Instruction CellId)} {applying : Instruction CellId}
    (first : Postfix left leftCode) (second : Postfix right rightCode)
    (isOperator : applying.opcode.binaryOperator? = some operator) :
    Postfix (.binary operator left right) (leftCode ++ (rightCode ++ [applying]))

/-- The operand that pushes a constant. -/
def Constant.datum : Constant → Datum CellId
  | .null => {}
  | .number value => .ofNumber value
  | .text value => .ofText value
  | .bool value => .ofBool value

/-- The opcode of a binary operator. -/
def BinaryOperator.opcode : BinaryOperator → Opcode
  | .add => .adds
  | .sub => .subs
  | .mul => .muls
  | .div => .divs
  | .rem => .rems
  | .lt => .lts
  | .gt => .gts
  | .le => .ltes
  | .ge => .gtes
  | .eq => .eqs
  | .ne => .neqs
  | .shl => .shls
  | .shr => .shrs
  | .bitOr => .bors
  | .bitAnd => .bands
  | .or => .ors
  | .and => .ands
  | .xor => .xors

/-- The code of an expression. -/
def Expression.code : Expression → List (Instruction CellId)
  | .constant value => [{ opcode := .push, datum := value.datum }]
  | .named name => [{ opcode := .fetch, datum := .ofName name }, { opcode := .pushim }]
  | .unary operator operand => operand.code ++ [{ opcode := operator.opcode }]
  | .binary operator left right =>
    left.code ++ (right.code ++ [{ opcode := operator.opcode }])

theorem Constant.denotes_datum (value : Constant) : value.datum.Denotes value := by
  cases value with
  | null => exact rfl
  | number | text | bool => exact ⟨rfl, rfl⟩

/-- Every expression has code that is `Expression.Postfix`. -/
theorem Expression.postfix_code (expression : Expression) : expression.Postfix expression.code := by
  induction expression with
  | constant value => exact .constant rfl value.denotes_datum
  | named name => exact .named rfl ⟨.inl rfl, rfl⟩ rfl
  | unary operator operand inductionHypothesis => exact .unary inductionHypothesis rfl
  | binary operator left right first second =>
    exact .binary first second (by cases operator <;> rfl)

theorem Heap.isReference_unary (heap : Heap) (operator : UnaryOperator) (operand : Content) :
    (heap.unary operator operand).isReference = false := by
  have plain := heap.isReference_reparse operand
  unfold Heap.unary
  split
  · cases operator <;> rfl
  · exact plain

theorem Heap.unary_of_extends {before after : Heap} (closed : before.Closed)
    (extended : before.Extends after) (operator : UnaryOperator) (operand : Content) :
    after.unary operator operand = before.unary operator operand := by
  rw [unary, unary, reparse_of_extends closed extended]

theorem Constant.isReference_content (value : Constant) : value.content.isReference = false := by
  cases value <;> rfl

/-- The `Expression.value` depends on the memory that texts are made of, and on the variables that
occur. -/
theorem Expression.value_of_extends {before after : Heap} (closed : before.Closed)
    (extended : before.Extends after) {assigned later : Text → Content} (expression : Expression)
    (same : ∀ name ∈ expression.names, later name = assigned name) :
    expression.value after later = expression.value before assigned := by
  induction expression with
  | constant value => rfl
  | named name => exact same name (List.mem_singleton_self name)
  | unary operator operand inductionHypothesis =>
    rw [value, value, inductionHypothesis same, Heap.unary_of_extends closed extended]
  | binary operator left right first second =>
    rw [value, value, first fun name member => same name (List.mem_append_left _ member),
      second fun name member => same name (List.mem_append_right _ member),
      Heap.binary_of_extends closed extended]

namespace Machine

variable {machine before middle after : Machine} {instruction : Instruction CellId}
  {lower : Array Operand}

/-! ### The instructions of an expression -/

/-- The machine with a new cell for a value on top of the operands that are left. -/
def giving (machine : Machine) (lower : Array Operand) (content : Content) : Machine :=
  { machine with heap := (Heap.allocateContent content machine.heap).2 }.showing lower
    { cell := ⟨machine.heap.cells.size⟩ }

theorem execute_push {value : Constant} (isPush : instruction.opcode = .push)
    (denotes : instruction.datum.Denotes value) :
    execute instruction machine = .ok .done (machine.giving machine.operands value.content) := by
  refine execute_of_plain (by rw [isPush]; exact Opcode.noConfusion) ?_
  have pushed : literal instruction.datum = onHeap (Heap.allocateContent value.content) := by
    unfold literal
    cases value with
    | null =>
      rw [show instruction.datum.kind = .null from denotes]
      rfl
    | number | text | bool =>
      obtain ⟨kind, rfl⟩ := denotes
      rw [kind]
      rfl
  unfold executePlain
  rw [isPush]
  change (do pushCell (← literal instruction.datum); setFlags : Action Unit) machine = _
  rw [pushed]
  exact push_setFlags _

/-- A variable that a script can read: a name other than that of the receiver, and bound. -/
structure Binds (machine : Machine) (name : Text) (cell : CellId) : Prop where
  attached : machine.attached = true
  noReceiver : name ≠ "this"
  bound : machine.scopes.get? name = some cell
  has : machine.heap.Has cell

theorem execute_fetch {name : Text} {cell : CellId} (isFetch : instruction.opcode = .fetch)
    (names : instruction.datum.Names name) (binds : machine.Binds name cell) :
    execute instruction machine = .ok .done { machine with accumulator := some cell } := by
  refine execute_of_plain (by rw [isFetch]; exact Opcode.noConfusion) ?_
  unfold executePlain
  rw [isFetch]
  change (nameOf instruction.datum >>= fetch) machine = _
  rw [nameOf_of_names names]
  change fetch name machine = _
  unfold fetch
  rw [if_neg binds.noReceiver, get_bind, if_pos binds.attached, binds.bound]
  rfl

theorem execute_pushim {cell : CellId} (isPush : instruction.opcode = .pushim)
    (held : machine.accumulator = some cell) :
    execute instruction machine = .ok .done (machine.showing machine.operands { cell }) := by
  refine execute_of_plain (by rw [isPush]; exact Opcode.noConfusion) ?_
  unfold executePlain
  rw [isPush]
  refine (get_bind _ _).trans ?_
  rw [held]
  exact push_setFlags _

theorem execute_unary {operator : UnaryOperator} {operand : Operand}
    (isOperator : instruction.opcode = operator.opcode)
    (operands : machine.operands = lower.push operand) :
    execute instruction machine = .ok .done
      (machine.giving lower (machine.heap.unary operator (machine.heap.content operand.cell))) := by
  have topmost : machine.operands.back? = some operand := by rw [operands, Array.back?_push]
  have rest : machine.operands.pop = lower := by rw [operands, Array.pop_push]
  have negated : executePlain instruction = negate operator.ofInteger := by
    unfold executePlain
    rw [isOperator]
    cases operator <;> rfl
  refine execute_of_plain (by rw [isOperator]; cases operator <;> exact Opcode.noConfusion) ?_
  rw [negated]
  unfold negate
  refine (bind_of_ok (pop_of_some topmost)).trans ?_
  rw [rest]
  refine (get_bind _ _).trans ?_
  unfold Heap.unary
  cases machine.heap.reparse (machine.heap.content operand.cell) with
  | number value => exact push_setFlags _
  | null | undefined | text | object | array | function => exact push_setFlags _

theorem execute_binary {operator : BinaryOperator} {left right : Operand}
    (isOperator : instruction.opcode.binaryOperator? = some operator)
    (operands : machine.operands = (lower.push left).push right) :
    execute instruction machine = .ok .done
      (machine.giving lower (machine.heap.binary operator (machine.heap.content left.cell)
        (machine.heap.content right.cell))) := by
  have topmost : machine.operands.back? = some right := by rw [operands, Array.back?_push]
  have rest : machine.operands.pop = lower.push left := by rw [operands, Array.pop_push]
  obtain ⟨noCall, applied⟩ : instruction.opcode ≠ .call ∧
      executePlain instruction = applyBinary operator := by
    unfold executePlain
    cases isOpcode : instruction.opcode <;> rw [isOpcode] at isOperator <;> cases isOperator <;>
      exact ⟨Opcode.noConfusion, rfl⟩
  refine execute_of_plain noCall ?_
  rw [applied]
  unfold applyBinary
  refine (bind_of_ok (pop_of_some topmost)).trans ?_
  rw [rest]
  refine (bind_of_ok (pop_of_some Array.back?_push)).trans ?_
  rw [Array.pop_push]
  exact push_setFlags _

/-- What the variable of a name holds. -/
def variableValue (machine : Machine) (name : Text) : Content :=
  machine.heap.content ((machine.scopes.get? name).getD default)

theorem Binds.variableValue_eq {name : Text} {cell : CellId} (binds : machine.Binds name cell) :
    machine.variableValue name = machine.heap.content cell := by
  rw [variableValue, binds.bound, Option.getD_some]

/-! ### Code in place -/

/-- The instructions from an address on are these, and the end of the run is at none of them. -/
def Carries (machine : Machine) : Int64 → List (Instruction CellId) → Prop
  | _, [] => True
  | pc, instruction :: rest =>
    pc ≠ machine.stop ∧ machine.instructionAt? pc = some instruction ∧
      machine.Carries (pc + 1) rest

theorem Carries.congr {pc : Int64} {code : List (Instruction CellId)}
    (carries : before.Carries pc code) (same : after.code = before.code)
    (stop : after.stop = before.stop) : after.Carries pc code := by
  induction code generalizing pc with
  | nil => trivial
  | cons instruction rest inductionHypothesis =>
    obtain ⟨running, present, later⟩ := carries
    refine ⟨by rwa [stop], ?_, inductionHypothesis later⟩
    rwa [instructionAt?, same]

theorem Carries.running {pc : Int64} {code rest : List (Instruction CellId)}
    (carries : machine.Carries pc (code ++ instruction :: rest)) : pc ≠ machine.stop := by
  cases code with
  | nil | cons => exact carries.1

theorem carries_append {pc : Int64} {first second : List (Instruction CellId)} :
    machine.Carries pc (first ++ second) ↔
      machine.Carries pc first ∧ machine.Carries (pc + Int64.ofNat first.length) second := by
  induction first generalizing pc with
  | nil => simp [Carries]
  | cons instruction rest inductionHypothesis =>
    have address : pc + 1 + Int64.ofNat rest.length =
        pc + Int64.ofNat (instruction :: rest).length := by
      rw [List.length_cons, Nat.add_comm, Int64.ofNat_add, Int64.add_assoc]
      rfl
    rw [List.cons_append, Carries, Carries, inductionHypothesis, address, and_assoc, and_assoc]

/-! ### What working out an expression leads to -/

/-- Some instructions have been executed, and none has changed more than the operands, the
accumulator and the zero flag. Cells may have been added to memory. -/
structure Advances (before : Machine) (steps : Nat) (after : Machine) : Prop where
  machine : after = { before with
    heap := after.heap
    operands := after.operands
    accumulator := after.accumulator
    flags := { zero := after.flags.zero, construct := before.flags.construct }
    current := before.current + Int64.ofNat steps }
  memory : before.heap.Extends after.heap

/-- A value has come on top of the operands by what `Advances`, and the zero flag tells of it. -/
structure Computed (before : Machine) (steps : Nat) (content : Content) (cell : CellId)
    (after : Machine) : Prop extends Advances before steps after where
  operands : after.operands = before.operands.push { cell }
  zero : after.flags.zero = !content.truthy
  has : after.heap.Has cell
  holds : after.heap.content cell = content

namespace Advances

variable {steps : Nat}

theorem trans {more : Nat} (first : Advances before steps middle)
    (second : Advances middle more after) : Advances before (steps + more) after := by
  refine ⟨?_, first.memory.trans second.memory⟩
  rw [second.machine, first.machine, Int64.ofNat_add, ← Int64.add_assoc]

theorem frames (advances : Advances before steps after) : after.frames = before.frames := by
  rw [advances.machine]

theorem scopes (advances : Advances before steps after) : after.scopes = before.scopes := by
  rw [advances.machine]

theorem current (advances : Advances before steps after) :
    after.current = before.current + Int64.ofNat steps := by
  rw [advances.machine]

theorem carries (advances : Advances before steps after) {pc : Int64}
    {code : List (Instruction CellId)} (carries : before.Carries pc code) :
    after.Carries pc code :=
  carries.congr (by rw [advances.machine]) (by rw [advances.machine])

theorem binds (advances : Advances before steps after) {name : Text} {cell : CellId}
    (binds : before.Binds name cell) : after.Binds name cell where
  attached := by rw [advances.machine, binds.attached]
  noReceiver := binds.noReceiver
  bound := by rw [advances.scopes, binds.bound]
  has := binds.has.mono advances.memory.grows

theorem variableValue_eq (advances : Advances before steps after) {name : Text} {cell : CellId}
    (binds : before.Binds name cell) : after.variableValue name = before.variableValue name := by
  rw [(advances.binds binds).variableValue_eq, binds.variableValue_eq,
    advances.memory.content binds.has]

end Advances

/-- The machine once the cell of a variable has been fetched. -/
def fetched (machine : Machine) (cell : CellId) : Machine :=
  { machine with accumulator := some cell, current := machine.current + 1 }

theorem stepped_fetched (running : machine.current ≠ machine.stop) (cell : CellId) :
    stepped { machine with accumulator := some cell } = machine.fetched cell :=
  if_neg running

theorem advances_fetched (machine : Machine) (cell : CellId) :
    Advances machine 1 (machine.fetched cell) :=
  ⟨rfl, .refl machine.heap⟩

/-- A cell that is there has been pushed by `showing`, and is `Computed`. -/
theorem computed_showing {cell : CellId} (has : machine.heap.Has cell)
    (running : machine.current ≠ machine.stop) :
    Computed machine 1 (machine.heap.content cell) cell
      (machine.showing machine.operands { cell }).stepped := by
  unfold stepped showing
  rw [if_neg running]
  exact ⟨⟨rfl, .refl _⟩, rfl, rfl, has, rfl⟩

/-- A result has been put into a new cell by `giving`, on top of the operands that are left, and is
`Computed`. -/
theorem computed_giving {content : Content} (plain : content.isReference = false)
    (running : machine.current ≠ machine.stop) (lower : Array Operand) :
    Computed { machine with operands := lower } 1 content ⟨machine.heap.cells.size⟩
      (machine.giving lower content).stepped := by
  have holds : (Heap.allocateContent content machine.heap).2.content
      ⟨machine.heap.cells.size⟩ = content :=
    congrArg Cell.content (Heap.cell_allocate { content } machine.heap)
  unfold stepped giving showing
  rw [if_neg running]
  refine ⟨⟨rfl, Heap.extends_allocateContent plain machine.heap⟩, rfl, ?_, ?_, holds⟩
  · exact congrArg (fun value : Content => !value.truthy) holds
  · exact Nat.lt_of_lt_of_eq (Nat.lt_succ_self _) (Array.size_push _).symm

/-- What has come on top of the operands that there were before is the outcome of all that
`Advances`. -/
theorem Advances.computes {steps more : Nat} {content : Content} {cell : CellId}
    (first : Advances before steps middle) (operands : middle.operands = before.operands)
    (second : Computed middle more content cell after) :
    Computed before (steps + more) content cell after :=
  { first.trans second.toAdvances with
    operands := second.operands.trans (by rw [operands])
    zero := second.zero
    has := second.has
    holds := second.holds }

/-- An operator behind its operands: its result takes their place, and is `Computed`. -/
theorem Advances.apply {steps : Nat} (advances : Advances before steps middle) {result : Content}
    (plain : result.isReference = false) (running : middle.current ≠ middle.stop) :
    Computed before (steps + 1) result ⟨middle.heap.cells.size⟩
      (middle.giving before.operands result).stepped := by
  have taken : Advances before steps { middle with operands := before.operands } := by
    refine ⟨?_, advances.memory⟩
    dsimp only
    rw [advances.machine]
  exact taken.computes rfl (computed_giving plain running before.operands)

end Machine

open Machine

namespace Configuration

variable {machine middle : Machine} {pending : List Activation}

/-! ### Moves over the instructions -/

/-- An instruction that is over is a move, `Moves`, of its own. -/
theorem Executes.moves {configuration : Configuration} (executes : configuration.Executes)
    {instruction : Instruction CellId}
    (present : configuration.machine.instruction? = some instruction)
    (executed : execute instruction configuration.machine = .ok .done middle) :
    configuration.Moves ⟨middle.stepped, configuration.pending⟩ :=
  executes.advance_eq.trans (executeNext_of_done present executed)

theorem Executes.run {instruction : Instruction CellId} (executes : Executes ⟨machine, pending⟩)
    (present : machine.instruction? = some instruction)
    (executed : execute instruction machine = .ok .done middle) :
    Run ⟨machine, pending⟩ [⟨machine, pending⟩] ⟨middle.stepped, pending⟩ :=
  .move (executes.moves present executed) (.done _)

theorem Run.append {first second last : Configuration} {passed later : List Configuration}
    (run : Run first passed second) (rest : Run second later last) :
    Run first (passed ++ later) last := by
  induction run with
  | done => exact rest
  | move moves _ inductionHypothesis => exact .move moves (inductionHypothesis rest)

/-- As many frames, and an address that is not the end, let the run go on executing. -/
theorem Executes.congr (executes : Executes ⟨machine, pending⟩)
    (frames : middle.frames = machine.frames) (running : middle.current ≠ middle.stop) :
    Executes ⟨middle, pending⟩ := by
  unfold Executes at executes ⊢
  cases pending with
  | nil => rw [nextMove, if_neg running]
  | cons activation outer =>
    unfold nextMove at executes ⊢
    dsimp only at executes ⊢
    rw [frames, if_neg running]
    by_cases inside : activation.depth < machine.frames.size
    · rw [if_pos inside]
    · rw [if_neg inside] at executes
      cases executes

/-! ### Whole expressions -/

/-- The next move executes the first instruction of the code of an expression. The end of the run is
not inside the code, memory refers to nothing that is not there, and the variables are bound. -/
structure Faces (configuration : Configuration) (expression : Expression)
    (code : List (Instruction CellId)) : Prop where
  executes : configuration.Executes
  carries : configuration.machine.Carries configuration.machine.current code
  closed : configuration.machine.heap.Closed
  bound : ∀ name ∈ expression.names, ∃ cell, configuration.machine.Binds name cell

/-- A run over the code of an expression has come out behind it, with the value of the expression
`Computed` on top of the operands and all else as it was. -/
def WorksOut (machine : Machine) (pending : List Activation) (expression : Expression)
    (code : List (Instruction CellId)) : Prop :=
  ∃ passed cell after, Run ⟨machine, pending⟩ passed ⟨after, pending⟩ ∧
    passed.length = code.length ∧
    Computed machine code.length (expression.value machine.heap machine.variableValue) cell after

variable {code leftCode rightCode : List (Instruction CellId)} {applying : Instruction CellId}

theorem worksOut_constant {value : Constant} {pushing : Instruction CellId}
    (isPush : pushing.opcode = .push) (denotes : pushing.datum.Denotes value)
    (faces : Faces ⟨machine, pending⟩ (.constant value) [pushing]) :
    WorksOut machine pending (.constant value) [pushing] := by
  obtain ⟨running, present, _⟩ := faces.carries
  exact ⟨_, _, _, faces.executes.run present (execute_push isPush denotes), rfl,
    computed_giving value.isReference_content running machine.operands⟩

theorem worksOut_named {name : Text} {fetching pushing : Instruction CellId}
    (isFetch : fetching.opcode = .fetch) (names : fetching.datum.Names name)
    (isPush : pushing.opcode = .pushim)
    (faces : Faces ⟨machine, pending⟩ (.named name) [fetching, pushing]) :
    WorksOut machine pending (.named name) [fetching, pushing] := by
  obtain ⟨running, present, later⟩ := faces.carries
  obtain ⟨cell, binds⟩ := faces.bound name (List.mem_singleton_self name)
  have fetched := advances_fetched machine cell
  obtain ⟨running', present', _⟩ := fetched.carries later
  have first := faces.executes.run present (execute_fetch isFetch names binds)
  rw [stepped_fetched running] at first
  have second := (faces.executes.congr fetched.frames running').run present'
    (execute_pushim isPush rfl)
  refine ⟨_, cell, _, first.append second, rfl, ?_⟩
  have pushed := fetched.computes rfl (computed_showing (fetched.binds binds).has running')
  rw [Expression.value, binds.variableValue_eq]
  exact pushed

theorem worksOut_unary {operator : UnaryOperator} {operand : Expression}
    (isOperator : applying.opcode = operator.opcode)
    (first : Faces ⟨machine, pending⟩ operand code → WorksOut machine pending operand code)
    (faces : Faces ⟨machine, pending⟩ (.unary operator operand) (code ++ [applying])) :
    WorksOut machine pending (.unary operator operand) (code ++ [applying]) := by
  obtain ⟨inFront, behind⟩ := carries_append.mp faces.carries
  obtain ⟨passed, cell, middle, run, length, computed⟩ :=
    first ⟨faces.executes, inFront, faces.closed, faces.bound⟩
  obtain ⟨running, present, _⟩ := computed.carries behind
  rw [← computed.current] at running present
  have applied := (faces.executes.congr computed.frames running).run present
    (execute_unary isOperator computed.operands)
  have result : middle.heap.unary operator (middle.heap.content cell) =
      (Expression.unary operator operand).value machine.heap machine.variableValue := by
    rw [computed.holds, Heap.unary_of_extends faces.closed computed.memory]
    rfl
  refine ⟨_, ⟨middle.heap.cells.size⟩, _, run.append applied, by simp [length], ?_⟩
  rw [← result, List.length_append]
  exact computed.apply (Heap.isReference_unary _ _ _) running

/-- Behind the code of the left operand the machine `Faces` that of the right one, which has the
value that it had before. -/
theorem Faces.behind {operator : BinaryOperator} {left right : Expression}
    (faces : Faces ⟨machine, pending⟩ (.binary operator left right)
      (leftCode ++ (rightCode ++ [applying])))
    (advances : Advances machine leftCode.length middle) :
    Faces ⟨middle, pending⟩ right rightCode ∧
      right.value middle.heap middle.variableValue =
        right.value machine.heap machine.variableValue := by
  have carries := advances.carries (carries_append.mp faces.carries).2
  rw [← advances.current] at carries
  have bound (name : Text) (member : name ∈ right.names) : ∃ cell, machine.Binds name cell :=
    faces.bound name (List.mem_append_right _ member)
  constructor
  case left =>
    refine ⟨faces.executes.congr advances.frames carries.running, (carries_append.mp carries).1,
      advances.memory.closed faces.closed, fun name member => ?_⟩
    obtain ⟨cell, binds⟩ := bound name member
    exact ⟨cell, advances.binds binds⟩
  case right =>
    refine right.value_of_extends faces.closed advances.memory fun name member => ?_
    obtain ⟨cell, binds⟩ := bound name member
    exact advances.variableValue_eq binds

theorem worksOut_binary {operator : BinaryOperator} {left right : Expression}
    (isOperator : applying.opcode.binaryOperator? = some operator)
    (first : Faces ⟨machine, pending⟩ left leftCode → WorksOut machine pending left leftCode)
    (second : ∀ middle : Machine, Faces ⟨middle, pending⟩ right rightCode →
      WorksOut middle pending right rightCode)
    (faces : Faces ⟨machine, pending⟩ (.binary operator left right)
      (leftCode ++ (rightCode ++ [applying]))) :
    WorksOut machine pending (.binary operator left right)
      (leftCode ++ (rightCode ++ [applying])) := by
  obtain ⟨passed, leftCell, middle, run, length, computed⟩ :=
    first ⟨faces.executes, (carries_append.mp faces.carries).1, faces.closed,
      fun name member => faces.bound name (List.mem_append_left _ member)⟩
  obtain ⟨behind, sameRight⟩ := faces.behind computed.toAdvances
  obtain ⟨passed', rightCell, last, run', length', computed'⟩ := second middle behind
  have both := computed.toAdvances.trans computed'.toAdvances
  obtain ⟨running, present, _⟩ := both.carries
    (carries_append.mp (List.append_assoc .. ▸ faces.carries)).2
  rw [List.length_append, ← both.current] at running present
  have operands : last.operands =
      (machine.operands.push { cell := leftCell }).push { cell := rightCell } := by
    rw [computed'.operands, computed.operands]
  have applied := (faces.executes.congr both.frames running).run present
    (execute_binary isOperator operands)
  have result : last.heap.binary operator (last.heap.content leftCell)
      (last.heap.content rightCell) =
        (Expression.binary operator left right).value machine.heap machine.variableValue := by
    rw [computed'.memory.content computed.has, computed.holds, computed'.holds, sameRight,
      Heap.binary_of_extends faces.closed both.memory]
    rfl
  refine ⟨_, ⟨last.heap.cells.size⟩, _, run.append (run'.append applied),
    by simp [length, length'], ?_⟩
  rw [← result, List.length_append, List.length_append, ← Nat.add_assoc]
  exact both.apply (Heap.isReference_binary _ _ _ _) running

/-- Wherever a run `Faces` the code of an expression, running it takes one move for each instruction
and leads behind it, with one operand more that holds the value of the expression, as it is
`Computed`. Operands, receivers, frames, scopes and cells that were there are as they were. -/
theorem postfix_computes {expression : Expression} (isCode : expression.Postfix code)
    (faces : Faces ⟨machine, pending⟩ expression code) :
    ∃ passed cell after, Run ⟨machine, pending⟩ passed ⟨after, pending⟩ ∧
      passed.length = code.length ∧
      Computed machine code.length (expression.value machine.heap machine.variableValue) cell
        after := by
  change WorksOut machine pending expression code
  induction isCode generalizing machine with
  | constant isPush denotes => exact worksOut_constant isPush denotes faces
  | named isFetch names isPush => exact worksOut_named isFetch names isPush faces
  | unary _ isOperator inductionHypothesis =>
    exact worksOut_unary isOperator inductionHypothesis faces
  | binary _ _ isOperator left right =>
    exact worksOut_binary isOperator left (fun _ behind => right behind) faces

/-- The text `a` with the value of a variable behind it. -/
def labelled : Expression :=
  .binary .add (.constant (.text "a")) (.named "x")

/-- A machine in front of the code of this expression, which ends at the end of the run. The
variable holds an array of null and a text. -/
def labelling : Machine where
  heap :=
    { cells := #[{}, { content := .null }, { content := .text "b" }, { content := .array ⟨0⟩ }]
      arrays := #[{ elements := #[⟨1⟩, ⟨2⟩] }] }
  scopes := { receiver := ⟨0⟩, globals := ⟨[("x", ⟨3⟩)]⟩ }
  code := #[{}] ++ labelled.code.toArray
  current := 1
  stop := 5
  operands := #[{ cell := ⟨1⟩ }]

theorem faces_labelling : Faces ⟨labelling, []⟩ labelled labelled.code := by
  constructor
  case executes => rfl
  case carries =>
    exact ⟨by decide, rfl, by decide, rfl, by decide, rfl, by decide, rfl, trivial⟩
  case closed => constructor <;> simp [labelling, Heap.Knows, Heap.Has, Heap.HasAll]
  case bound =>
    intro name member
    rw [List.mem_singleton.mp member]
    exact ⟨⟨3⟩, rfl, by decide, by decide, by unfold Heap.Has; decide⟩

theorem postfix_computes_labelling :
    ∃ passed cell after, Run ⟨labelling, []⟩ passed ⟨after, []⟩ ∧ passed.length = 4 ∧
      after.current = 5 ∧ after.operands = #[{ cell := ⟨1⟩ }, { cell }] ∧
      after.heap.content cell = .text "a,b" := by
  obtain ⟨passed, cell, after, run, length, computed⟩ :=
    postfix_computes labelled.postfix_code faces_labelling
  refine ⟨passed, cell, after, run, length, computed.current, computed.operands,
    computed.holds.trans ?_⟩
  have joined : labelling.heap.render (.array ⟨0⟩) = ",b" := by
    simp [Heap.render, Heap.renderWithin, labelling, Heap.array, Heap.content, Heap.cell,
      Content.isNullish, Text.join]
    rfl
  change Content.text (labelling.heap.render (.text "a") ++
    labelling.heap.render (.array ⟨0⟩)) = _
  rw [joined, Heap.render, Heap.renderWithin]
  rfl

end Configuration

end ScriptEngine
