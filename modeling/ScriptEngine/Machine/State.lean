/-
This file is the state of the machine and its elementary moves. The machine has an operand
stack whose places may carry a key, a stack of receivers, a stack of call frames, two flags
and an accumulator. A frame remembers how high the other two stacks were; leaving it cuts
them back to those marks, and never makes them longer. Every move keeps the state it has
reached when it fails.
-/

import ScriptEngine.Machine.Fault
import ScriptEngine.Scope
import ScriptEngine.Value.Operator
import ScriptEngine.Value.Property

namespace ScriptEngine

/-- A place of the operand stack: a cell, and the key it was given for an object literal. -/
structure Operand where
  cell : CellId
  key : Text := []
  deriving DecidableEq, Inhabited

/-- The flags of the machine. -/
structure Flags where
  /-- The last produced value is falsy. -/
  zero : Bool := false
  /-- The next call is a constructor call. -/
  construct : Bool := false
  deriving DecidableEq, Repr, Inhabited

/-- The flags as a number: 1 for the first, 2 for the second. -/
def Flags.bits (flags : Flags) : Nat :=
  (if flags.zero then 1 else 0) + if flags.construct then 2 else 0

/-- What a call has to put back: the address of the call, the flags before it, and how high the
operand and receiver stacks were. -/
structure Frame where
  pc : Int64
  flags : Flags
  operandMark : Nat
  receiverMark : Nat
  deriving DecidableEq, Inhabited

/-- The state of the machine. Stacks grow at their ends. -/
structure Machine where
  heap : Heap := {}
  scopes : Scopes
  /-- Whether the machine can use the scope store. -/
  attached : Bool := true
  code : Array (Instruction CellId) := #[]
  current : Int64 := 0
  start : Int64 := 0
  stop : Int64 := 0
  flags : Flags := {}
  accumulator : Option CellId := none
  operands : Array Operand := #[]
  receivers : Array CellId := #[]
  frames : Array Frame := #[]
  /-- The greatest number of frames; zero and below mean that there is none. -/
  limit : Int64 := 0
  /-- The lines printed so far. -/
  output : Array Text := #[]
  deriving DecidableEq

instance : Inhabited Machine := ⟨{ scopes := default }⟩

/-- A step of the machine: it may fail, and keeps the state it has reached either way. -/
abbrev Action := EStateM Fault Machine

namespace Machine

variable {Result : Type}

/-! ### Faults -/

/-- The instruction at an address. -/
def instructionAt? (machine : Machine) (pc : Int64) : Option (Instruction CellId) :=
  if 0 ≤ pc then machine.code[pc.toNatClampNeg]? else none

/-- The instruction at the program counter. -/
def instruction? (machine : Machine) : Option (Instruction CellId) :=
  machine.instructionAt? machine.current

/-- The program counter and the opcode there; outside the code the opcode is `noop`. -/
def place (machine : Machine) : Place :=
  ⟨machine.current, (machine.instruction?.map Instruction.opcode).getD .noop⟩

/-- Ends the run over a malformed instruction. -/
def malformed (malformation : Malformation) : Action Result := do
  throw (.malformed (← get).place malformation)

/-- Raises a script fault. -/
def raise (cause : Cause) : Action Result :=
  throw (.script { cause })

/-- Ends the run over a step the machine does not support. -/
def breakDown (breakdown : Breakdown) : Action Result :=
  throw (.breakdown breakdown)

/-! ### Memory and scopes -/

/-- Changes memory. -/
def onHeap (change : StateM Heap Result) : Action Result :=
  modifyGet fun machine =>
    let heap := machine.heap
    let machine := { machine with heap := {} }
    let (result, heap) := change.run heap
    (result, { machine with heap })

/-- Changes the scope store, which has to be attached. -/
def onScopes (change : Scopes → Scopes) : Action Unit := do
  if (← get).attached then modify fun machine => { machine with scopes := change machine.scopes }
  else breakDown .noScopes

/-- What a cell holds. -/
def contentOf (cell : CellId) : Action Content := do
  return (← get).heap.content cell

/-! ### Stacks -/

/-- Pushes an operand. -/
def push (operand : Operand) : Action Unit :=
  modify fun machine => { machine with operands := machine.operands.push operand }

/-- Pushes a cell without a key. -/
def pushCell (cell : CellId) : Action Unit :=
  push { cell }

/-- Pushes a new cell with a content. -/
def pushContent (content : Content) : Action Unit := do
  pushCell (← onHeap (Heap.allocateContent content))

/-- The topmost operand. -/
def top : Action Operand := do
  match (← get).operands.back? with
  | some operand => return operand
  | none => malformed .operandUnderflow

/-- Removes the topmost operand. -/
def pop : Action Operand := do
  let operand ← top
  modify fun machine => { machine with operands := machine.operands.pop }
  return operand

/-- Removes as many operands and puts their cells, lowest first, in front of others. -/
def popOnto : (count : Nat) → List CellId → Action (List CellId)
  | 0, cells => return cells
  | count + 1, cells => do
    let operand ← pop
    popOnto count (operand.cell :: cells)

/-- Sets the zero flag by the truth of the topmost operand. -/
def setFlags : Action Unit := do
  let content ← contentOf (← top).cell
  modify fun machine => { machine with flags := { machine.flags with zero := !content.truthy } }

/-- Pushes a receiver. -/
def pushReceiver (cell : CellId) : Action Unit :=
  modify fun machine => { machine with receivers := machine.receivers.push cell }

/-- The current receiver: the topmost one, or the one of the scope store. -/
def receiver : Action CellId := do
  let machine ← get
  match machine.receivers.back? with
  | some cell => return cell
  | none => if machine.attached then return machine.scopes.receiver else breakDown .noScopes

/-- Clears the flag of a constructor call. -/
def clearConstruct : Action Unit :=
  modify fun machine => { machine with flags := { machine.flags with construct := false } }

/-! ### Frames -/

/-- Pushes a frame that remembers this moment. -/
def pushFrame : Action Unit :=
  modify fun machine =>
    { machine with
      frames := machine.frames.push
        { pc := machine.current
          flags := machine.flags
          operandMark := machine.operands.size
          receiverMark := machine.receivers.size } }

/-- Removes the topmost frame. -/
def popFrame : Action Frame := do
  match (← get).frames.back? with
  | some frame =>
    modify fun machine => { machine with frames := machine.frames.pop }
    return frame
  | none => malformed .noFrame

/-- Cuts both stacks back to the marks of a frame. -/
def cutBack (frame : Frame) : Action Unit :=
  modify fun machine =>
    { machine with
      operands := machine.operands.shrink frame.operandMark
      receivers := machine.receivers.shrink frame.receiverMark }

/-- Removes the topmost frame and puts back its flags and stack heights, but not the address. -/
def leaveFrame : Action Frame := do
  let frame ← popFrame
  modify fun machine => { machine with flags := frame.flags }
  cutBack frame
  return frame

/-- Removes the topmost frame and puts everything back that it remembers. -/
def restore : Action Frame := do
  let frame ← popFrame
  modify fun machine => { machine with current := frame.pc, flags := frame.flags }
  cutBack frame
  return frame

/-- Whether there are more frames than the limit allows. -/
def overLimit (machine : Machine) : Bool :=
  0 < machine.limit && machine.limit.toInt < machine.frames.size

end Machine

end ScriptEngine
