/-
This file is about the native functions. All of them except `invoke` finish at once with a
value or a fault. Calling `invoke` passes the call on to its first argument; when that is a
native function again the arguments get fewer each time, and when it is a script function
the machine has to run it, which is told to the caller instead of done here.
-/

import ScriptEngine.Machine.State

namespace ScriptEngine

namespace Heap

/-- The first of some cells itself, or a new undefined one. -/
def firstOrUndefined : List CellId → StateM Heap CellId
  | [] => allocateContent .undefined
  | cell :: _ => return cell

/-- A new array of copies of some cells. -/
def arrayOfCopies (cells : List CellId) : StateM Heap CellId := do
  let copies ← cells.toArray.mapM copy
  allocateContent (.array (← newArray copies))

end Heap

namespace Machine

/-- What calling a native function comes to. -/
inductive HostCall where
  /-- The call is over and has this result. -/
  | value (cell : CellId)
  /-- A script function has to be run with a receiver and arguments. -/
  | enter (function : FunctionId) (receiver : Option CellId) (arguments : List CellId)

/-- A new array: of undefined elements for one argument that is a number, else of copies of the
arguments. -/
def callArray (arguments : List CellId) : Action CellId := do
  let heap := (← get).heap
  match arguments with
  | [single] =>
    match heap.content single with
    | .number length =>
      match Number.size? length with
      | some size => onHeap (Heap.allocateArray size)
      | none => raise (.arrayLength (numberText length))
    | _ => onHeap (Heap.arrayOfCopies arguments)
  | _ => onHeap (Heap.arrayOfCopies arguments)

/-- Fails unless the first two arguments are loosely equal. -/
def callAssertEqual (arguments : List CellId) : Action CellId := do
  let heap := (← get).heap
  match arguments with
  | left :: right :: _ =>
    if (heap.content left).looselyEqual (heap.content right) then
      onHeap (Heap.allocateContent .undefined)
    else raise (.assertion (heap.text left) (heap.text right))
  | _ => raise (.assertionArguments arguments.length)

/-- Calls a native function that needs no script function to be run; `invoke` counts as called
without arguments. -/
def callPlain (native : Native) (arguments : List CellId) : Action CellId := do
  match native with
  | .print =>
    let heap := (← get).heap
    let line := Text.join " " (arguments.map heap.text)
    modify fun machine => { machine with output := machine.output.push line }
    onHeap (Heap.allocateContent .undefined)
  | .assertEqual => callAssertEqual arguments
  | .array => callArray arguments
  | .number =>
    let heap := (← get).heap
    onHeap (Heap.allocateContent (.number
      ((arguments.head?.map fun cell => (heap.content cell).toNumber).getD 0)))
  | .boolean =>
    let heap := (← get).heap
    onHeap (Heap.allocateContent (.ofBool
      ((arguments.head?.map fun cell => (heap.content cell).truthy).getD false)))
  | .object => onHeap Heap.allocateObject
  | .echo => onHeap (Heap.firstOrUndefined arguments)
  | .invoke => raise .invokeArguments

/-- The function in a cell, ready to be called. -/
def prepared (callee : CellId) : Action FunctionId := do
  match (← contentOf callee).callable? with
  | some function =>
    onHeap (Heap.prepare function)
    return function
  | none => raise .notCallable

/-- Calls a native function. -/
def callHost (native : Native) (receiver : Option CellId) : List CellId → Action HostCall
  | [] => return .value (← callPlain native [])
  | first :: rest => do
    match native with
    | .invoke =>
      let function ← prepared first
      match ((← get).heap.function function).native with
      | some inner => callHost inner receiver rest
      | none => return .enter function receiver rest
    | _ => return .value (← callPlain native (first :: rest))

end Machine

end ScriptEngine
