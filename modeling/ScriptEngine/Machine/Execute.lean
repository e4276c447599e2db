/-
This file executes single instructions. Each takes its operands off the stack in a fixed
order, and a fault leaves the machine as far as the instruction had come, so the order is
part of what an instruction means.
-/

import ScriptEngine.Machine.Call

namespace ScriptEngine

/-- The operator of a binary instruction. -/
def Opcode.binaryOperator? : Opcode → Option BinaryOperator
  | .adds => some .add
  | .subs => some .sub
  | .muls => some .mul
  | .divs => some .div
  | .rems => some .rem
  | .lts => some .lt
  | .gts => some .gt
  | .ltes => some .le
  | .gtes => some .ge
  | .eqs => some .eq
  | .neqs => some .ne
  | .shls => some .shl
  | .shrs => some .shr
  | .bors => some .bitOr
  | .bands => some .bitAnd
  | .ors => some .or
  | .ands => some .and
  | .xors => some .xor
  | _ => none

namespace Machine

/-! ### Operands embedded in instructions -/

/-- The operand as a name. -/
def nameOf (datum : Datum CellId) : Action Text :=
  match datum.kind with
  | .name | .text => return datum.text
  | kind => malformed (.notAName kind)

/-- The operand as a count. -/
def countOf (datum : Datum CellId) : Action Nat :=
  match datum.kind, Number.size? datum.number with
  | .number, some count => return count
  | kind, _ => malformed (.notACount kind datum.shown)

/-- The cell that pushing an operand pushes. -/
def literal (datum : Datum CellId) : Action CellId :=
  match datum.kind with
  | .null => onHeap (Heap.allocateContent .null)
  | .number => onHeap (Heap.allocateContent (.number datum.number))
  | .text => onHeap (Heap.allocateContent (.text datum.text))
  | .bool => onHeap (Heap.allocateContent (.ofBool datum.bool))
  | .object =>
    match datum.object with
    | some cell => return cell
    | none => malformed .missingObject
  | kind => malformed (.unknownLiteral kind)

/-! ### Names -/

/-- Puts the cell of a name into the accumulator; `this` names the receiver. -/
def fetch (name : Text) : Action Unit := do
  if name = "this" then
    let cell ← receiver
    modify fun machine => { machine with accumulator := some cell }
  else
    let machine ← get
    if machine.attached then
      match machine.scopes.get? name with
      | some cell => modify fun machine => { machine with accumulator := some cell }
      | none => raise (.unbound name)
    else breakDown .noScopes

/-- Declares a name in the innermost scope. -/
def declare (name : Text) : Action Unit := do
  let cell ← onHeap (Heap.allocateContent .undefined)
  onScopes fun scopes => scopes.bind name cell

/-! ### Writing through cells -/

/-- Writes the second operand into the topmost one, if that is writable, and keeps the
latter. -/
def store : Action Unit := do
  let target ← pop
  let source ← pop
  let content ← contentOf source.cell
  if (← get).heap.writable target.cell then onHeap (Heap.setContent target.cell content)
  push target
  setFlags

/-- A number with another added; anything else as it is. -/
def shifted (difference : Float) : Content → Content
  | .number value => .number (value + difference)
  | content => content

/-- Adds to the topmost operand in place; the result is the operand itself if it is writable. -/
def increment (difference : Float) : Action Unit := do
  let operand := (← pop).cell
  let heap := (← get).heap
  let result := shifted difference (heap.reparse (heap.content operand))
  if heap.writable operand then
    onHeap (Heap.setContent operand result)
    pushCell operand
  else pushContent result
  setFlags

/-- Adds to the topmost operand in place; the result is the number before. -/
def incrementAfter (difference : Float) : Action Unit := do
  let operand := (← pop).cell
  let heap := (← get).heap
  let before := heap.reparse (heap.content operand)
  if heap.writable operand then
    onHeap (Heap.setContent operand (shifted difference before))
  pushContent before
  setFlags

/-- Replaces the topmost operand by a function of its 32-bit integer, or by undefined. -/
def negate (negation : Int32 → Content) : Action Unit := do
  let operand := (← pop).cell
  let heap := (← get).heap
  match heap.reparse (heap.content operand) with
  | .number value => pushContent (negation (Number.toInt32 value))
  | content => pushContent content
  setFlags

/-! ### Objects and arrays -/

/-- Puts copies of operands under their keys. -/
def setOperands (target : Content) : List Operand → StateM Heap Unit
  | [] => return
  | operand :: rest => do
    let cell ← Heap.copy operand.cell
    let _ ← Heap.setProperty target operand.key cell
    setOperands target rest

/-- Replaces the topmost operands by one object that has copies of them under their keys; of two
with the same key the later one counts. -/
def popProperties (count : Nat) : Action Unit := do
  let machine ← get
  if machine.operands.size < count then malformed .operandUnderflow
  else
    let operands := (machine.operands.extract (machine.operands.size - count)).toList
    if operands.any fun operand => operand.key.isEmpty then raise .emptyPropertyKey
    else
      let cell ← onHeap do
        let cell ← Heap.allocateObject
        setOperands ((← get).content cell) operands
        return cell
      modify fun machine =>
        { machine with operands := machine.operands.shrink (machine.operands.size - count) }
      pushCell cell
      setFlags

/-- Replaces the topmost operand by one of its properties, and makes it the receiver. -/
def replaceByProperty (datum : Datum CellId) : Action Unit := do
  let operand := (← pop).cell
  pushReceiver operand
  let name ← nameOf datum
  let content ← contentOf operand
  pushCell (← onHeap (Heap.getProperty content name))
  setFlags

/-- Replaces the two topmost operands by the property of the lower one that the text of the
upper one names, and makes the lower one the receiver. -/
def replaceByElement : Action Unit := do
  let index := (← pop).cell
  let collection := (← pop).cell
  let heap := (← get).heap
  let name := heap.text index
  pushCell (← onHeap (Heap.getProperty (heap.content collection) name))
  pushReceiver collection
  setFlags

/-- Moves copies of the topmost operands into an array, from position `count - 1` downward. -/
def moveIntoArray (array : ArrayId) : (count : Nat) → Action Unit
  | 0 => return
  | position + 1 => do
    let operand := (← pop).cell
    onHeap do
      let cell ← Heap.copy operand
      Heap.assignElement array position cell
    moveIntoArray array position

/-- Moves operands into the array in the accumulator. -/
def fillAccumulator (datum : Datum CellId) : Action Unit := do
  let machine ← get
  match machine.accumulator.map machine.heap.content with
  | some (.array array) => moveIntoArray array (← countOf datum)
  | _ => malformed .accumulatorNotArray

/-- Gives the topmost operand a key. -/
def setKey (datum : Datum CellId) : Action Unit := do
  let operand ← top
  let key ← nameOf datum
  modify fun machine =>
    { machine with operands := machine.operands.pop.push { operand with key } }

/-- Moves the topmost receiver to the operands; without one the scope store's is pushed. -/
def popReceiver : Action Unit := do
  let machine ← get
  match machine.receivers.back? with
  | some cell =>
    pushCell cell
    modify fun machine => { machine with receivers := machine.receivers.pop }
  | none => if machine.attached then pushCell machine.scopes.receiver else breakDown .noScopes

/-! ### Every instruction -/

/-- Moves the program counter by the offset of an instruction. -/
def jump (instruction : Instruction CellId) : Action Unit :=
  modify fun machine => { machine with current := machine.current + instruction.jump }

/-- Applies a binary operator to the two topmost operands. -/
def applyBinary (operator : BinaryOperator) : Action Unit := do
  let right := (← pop).cell
  let left := (← pop).cell
  let heap := (← get).heap
  pushContent (heap.binary operator (heap.content left) (heap.content right))
  setFlags

/-- Executes an instruction that calls nothing. -/
def executePlain (instruction : Instruction CellId) : Action Unit := do
  let datum := instruction.datum
  match instruction.opcode with
  | .noop | .loopz => return
  | .fetch => fetch (← nameOf datum)
  | .store => store
  | .push =>
    pushCell (← literal datum)
    setFlags
  | .pushim =>
    match (← get).accumulator with
    | some cell =>
      pushCell cell
      setFlags
    | none => malformed .emptyAccumulator
  | .poprop => popProperties (← countOf datum)
  | .replprop => replaceByProperty datum
  | .index => replaceByElement
  | .res =>
    let size ← countOf datum
    let cell ← onHeap (Heap.allocateArray size)
    modify fun machine => { machine with accumulator := some cell }
  | .news => declare (← nameOf datum)
  | .cpya => fillAccumulator datum
  | .maps => setKey datum
  | .jmp => jump instruction
  | .jmpz => if (← get).flags.zero then jump instruction
  | .jmpnz => if !(← get).flags.zero then jump instruction
  | .ret => ret
  | .leave => modify fun machine => { machine with current := machine.stop }
  | .markst =>
    modify fun machine => { machine with flags := { machine.flags with construct := true } }
  | .pushthis => popReceiver
  | .inc => increment 1
  | .dec => increment (-1)
  | .pinc => incrementAfter 1
  | .pdec => incrementAfter (-1)
  | .snot => negate fun value => .ofBool (value == 0)
  | .bnot => negate fun value => .ofInt32 (~~~value)
  | opcode =>
    match opcode.binaryOperator? with
    | some operator => applyBinary operator
    | none => malformed (.unknownOpcode opcode)

/-- Executes an instruction. -/
def execute (instruction : Instruction CellId) : Action Flow := do
  match instruction.opcode with
  | .call => call (← countOf instruction.datum)
  | _ =>
    executePlain instruction
    return .done

end Machine

end ScriptEngine
