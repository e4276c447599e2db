/-
This file is what a host does with a machine between runs: making one, loading a program
into it and taking one out, resetting it, and reading its result. Resetting closes one
scope for each call that has not returned, which are all the scopes that a run leaves open.
-/

import ScriptEngine.Machine.State

namespace ScriptEngine

namespace Machine

/-! ### A new machine -/

/-- A machine with a scope store of its own, whose receiver is a new object, and with at most
`limit` frames. -/
def new (limit : Int64) : Machine :=
  let (receiver, heap) := Heap.allocateObject.run {}
  { heap, scopes := { receiver }, receivers := #[receiver], limit }

/-- Attaches the scope store, and makes its receiver the topmost one. -/
def attach (machine : Machine) : Machine :=
  { machine with
    attached := true, receivers := machine.receivers.push machine.scopes.receiver }

/-- Binds a name in the global scope to a new cell. -/
def defineCell (machine : Machine) (name : Text) (cell : Cell) : Machine :=
  let (id, heap) := (Heap.allocate cell).run machine.heap
  { machine with heap, scopes := machine.scopes.define name id }

/-- Binds the name of a native function in the global scope. -/
def defineNative (machine : Machine) (name : Text) (constructs : ConstructKind)
    (native : Native) : Machine :=
  let (id, heap) := (Heap.newFunction { name, native := some native, constructs }).run machine.heap
  { machine with heap }.defineCell name { content := .function id }

/-- Defines the names that every script can rely on. -/
def install (machine : Machine) : Machine :=
  machine
    |>.defineCell "undefined" { content := .undefined, readOnly := true }
    |>.defineCell "NaN" { content := .number Number.notANumber, readOnly := true }
    |>.defineCell "Infinity" { content := .number (Number.infinity false), readOnly := true }
    |>.defineNative "print" .object .print
    |>.defineNative "assert_equal" .object .assertEqual
    |>.defineNative "invoke" .object .invoke
    |>.defineNative "Array" .array .array
    |>.defineNative "Number" .number .number
    |>.defineNative "Boolean" .boolean .boolean
    |>.defineNative "Object" .object .object

/-- The names that `install` defines. -/
def installedNames : List Text :=
  ["undefined", "NaN", "Infinity", "print", "assert_equal", "invoke", "Array", "Number", "Boolean",
    "Object"]

/-! ### Programs in and out -/

/-- Sets the bounds of a run, and the program counter to the first address. -/
def setBounds (machine : Machine) (start stop : Int64) : Machine :=
  { machine with current := start, start, stop }

/-- Makes a cell for each function of a program. -/
def allocateDeclarations (declarations : List Declaration) : StateM Heap (List CellId) :=
  declarations.mapM fun declaration =>
    Heap.allocateFunction
      { name := declaration.name, params := declaration.params, entry := declaration.entry,
        constructs := declaration.constructs }

/-- Instructions in memory, and the bounds they run in. -/
structure Placement where
  code : Array (Instruction CellId)
  start : Int64
  stop : Int64

/-- Places a program in memory, with its functions in cells of their own. -/
def Placement.ofProgram (program : Program) : StateM Heap Placement := do
  let cells := (← allocateDeclarations program.items.toList).toArray
  return {
    code := program.code.map fun instruction =>
      instruction.map fun index => cells.getD index default
    start := program.start
    stop := program.stop }

/-- Loads instructions that are in memory. -/
def loadPlaced (machine : Machine) (placement : Placement) : Machine :=
  { machine with code := placement.code }.setBounds placement.start placement.stop

/-- Loads a program. -/
def load (machine : Machine) (program : Program) : Machine :=
  let (placement, heap) := (Placement.ofProgram program).run machine.heap
  { machine with heap }.loadPlaced placement

/-- The function that a cell holds, as a program declares it. -/
def embedded (heap : Heap) (cell : CellId) : Embedded :=
  match heap.content cell with
  | .function id =>
    let body := heap.function id
    let declaration : Declaration :=
      { name := body.name, params := body.params, entry := body.entry,
        constructs := body.constructs }
    if body.native.isSome then .native declaration else .script declaration
  | _ => .value

/-- Whether two cells count as one item of a program: the same cell or the same function. -/
def sameItem (heap : Heap) (left right : CellId) : Bool :=
  match heap.content left, heap.content right with
  | .function left, .function right => left = right
  | _, _ => left = right

/-- The cells that instructions refer to, each function once, in the order of first use. -/
def referredCells (heap : Heap) (code : List (Instruction CellId)) : List CellId :=
  code.foldl (fun found instruction =>
    match instruction.datum.object with
    | some cell => if found.any (sameItem heap cell) then found else found ++ [cell]
    | none => found) []

/-- Instructions in memory as a program that stands for itself. -/
def Placement.snapshot (placement : Placement) (heap : Heap) : Snapshot :=
  let cells := referredCells heap placement.code.toList
  { code := placement.code.map fun instruction =>
      instruction.map fun cell => cells.findIdx (sameItem heap cell)
    items := (cells.map (embedded heap)).toArray
    start := placement.start
    stop := placement.stop }

/-- The loaded program. -/
def snapshot (machine : Machine) : Snapshot :=
  Placement.snapshot ⟨machine.code, machine.start, machine.stop⟩ machine.heap

/-! ### Between runs -/

/-- Clears all stacks and registers, and closes the scope of each call that has not returned. -/
def clear (machine : Machine) : Machine :=
  { machine with
    scopes :=
      if machine.attached then
        { machine.scopes with opened := machine.scopes.opened.drop machine.frames.size }
      else machine.scopes
    operands := #[], receivers := #[], frames := #[], flags := {}, accumulator := none }

/-- Clears the machine and goes back to the first address. -/
def reset (machine : Machine) : Machine :=
  { machine.clear with current := machine.start }

/-- Resets the machine and detaches its scope store. -/
def shutDown (machine : Machine) : Machine :=
  { machine.reset with attached := false }

/-- Takes the topmost operand as result; without one the result is undefined. -/
def takeResult (machine : Machine) : CellId × Machine :=
  match machine.operands.back? with
  | some operand => (operand.cell, { machine with operands := machine.operands.pop })
  | none =>
    let (cell, heap) := (Heap.allocateContent .undefined).run machine.heap
    (cell, { machine with heap })

/-! ### Traces -/

/-- The line that a trace shows for the instruction about to be executed. -/
def traceLine (machine : Machine) : Text :=
  match machine.instruction? with
  | some instruction =>
    instruction.shown ++ (if machine.flags.zero then Text.ofString " Z\n" else Text.ofString " -\n")
  | none => []

end Machine

end ScriptEngine
