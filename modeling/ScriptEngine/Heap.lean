/-
This file is the memory of the engine. Every value lives in a cell; variables, properties,
array elements and stack places hold cells, so a write through one of them is seen through
the others. A cell that holds an object, an array or a function only refers to it: copying
the cell shares the object. Memory only grows, and reading a place outside it gives
undefined or an empty body.
-/

import ScriptEngine.Heap.Function

namespace ScriptEngine

/-- The identity of an object. -/
structure ObjectId where
  index : Nat
  deriving DecidableEq, Repr, Inhabited

/-- The identity of an array. -/
structure ArrayId where
  index : Nat
  deriving DecidableEq, Repr, Inhabited

/-- The identity of a function. -/
structure FunctionId where
  index : Nat
  deriving DecidableEq, Repr, Inhabited

/-- What a cell holds. -/
inductive Content where
  | null
  | undefined
  | number (value : Float)
  | text (value : Text)
  | object (id : ObjectId)
  | array (id : ArrayId)
  | function (id : FunctionId)
  deriving DecidableEq

instance : Inhabited Content := ⟨.undefined⟩

/-- A place that holds a value. A read-only cell never takes another one. -/
structure Cell where
  content : Content := .undefined
  readOnly : Bool := false
  deriving DecidableEq, Inhabited

/-- An array: its elements by position, and the properties under all other names. -/
structure ArrayBody where
  elements : Array CellId := #[]
  properties : Table := {}
  deriving DecidableEq, Inhabited

/-- All cells, objects, arrays and functions made so far. -/
structure Heap where
  cells : Array Cell := #[]
  objects : Array Table := #[]
  arrays : Array ArrayBody := #[]
  functions : Array FunctionBody := #[]
  deriving DecidableEq, Inhabited

namespace Heap

/-! ### Reading -/

/-- The cell with an identity. -/
def cell (heap : Heap) (id : CellId) : Cell :=
  heap.cells.getD id.index {}

/-- What the cell with an identity holds. -/
def content (heap : Heap) (id : CellId) : Content :=
  (heap.cell id).content

/-- Whether a cell takes a new value. -/
def writable (heap : Heap) (id : CellId) : Bool :=
  !(heap.cell id).readOnly

/-- The properties of an object. -/
def object (heap : Heap) (id : ObjectId) : Table :=
  heap.objects.getD id.index {}

/-- The body of an array. -/
def array (heap : Heap) (id : ArrayId) : ArrayBody :=
  heap.arrays.getD id.index {}

/-- The body of a function. -/
def function (heap : Heap) (id : FunctionId) : FunctionBody :=
  heap.functions.getD id.index {}

/-! ### Making and changing

These are state transformers, so that a sequence of them reads as the steps it takes. -/

/-- A new cell. -/
def allocate (cell : Cell) : StateM Heap CellId :=
  modifyGet fun heap => (⟨heap.cells.size⟩, { heap with cells := heap.cells.push cell })

/-- A new writable cell with a content. -/
def allocateContent (content : Content) : StateM Heap CellId :=
  allocate { content }

/-- Replaces a cell. -/
def setCell (id : CellId) (cell : Cell) : StateM Heap Unit :=
  modify fun heap => { heap with cells := heap.cells.setIfInBounds id.index cell }

/-- Replaces what a cell holds and keeps whether it is read-only. -/
def setContent (id : CellId) (content : Content) : StateM Heap Unit := do
  let old := (← get).cell id
  setCell id { old with content }

/-- Makes a cell read-only or writable. -/
def setReadOnly (id : CellId) (readOnly : Bool) : StateM Heap Unit := do
  let old := (← get).cell id
  setCell id { old with readOnly }

/-- A new writable cell with the content of another. -/
def copy (id : CellId) : StateM Heap CellId := do
  allocateContent ((← get).content id)

/-- A new object without properties. -/
def newObject : StateM Heap ObjectId :=
  modifyGet fun heap => (⟨heap.objects.size⟩, { heap with objects := heap.objects.push {} })

/-- A new array with the given elements. -/
def newArray (elements : Array CellId) : StateM Heap ArrayId :=
  modifyGet fun heap =>
    (⟨heap.arrays.size⟩, { heap with arrays := heap.arrays.push { elements } })

/-- A new function. -/
def newFunction (body : FunctionBody) : StateM Heap FunctionId :=
  modifyGet fun heap =>
    (⟨heap.functions.size⟩, { heap with functions := heap.functions.push body })

/-- Changes the properties of an object. -/
def modifyObject (id : ObjectId) (change : Table → Table) : StateM Heap Unit :=
  modify fun heap => { heap with objects := heap.objects.modify id.index change }

/-- Changes an array. -/
def modifyArray (id : ArrayId) (change : ArrayBody → ArrayBody) : StateM Heap Unit :=
  modify fun heap => { heap with arrays := heap.arrays.modify id.index change }

/-- Changes a function. -/
def modifyFunction (id : FunctionId) (change : FunctionBody → FunctionBody) : StateM Heap Unit :=
  modify fun heap => { heap with functions := heap.functions.modify id.index change }

/-- A new cell that holds a new object without properties. -/
def allocateObject : StateM Heap CellId := do
  allocateContent (.object (← newObject))

/-- As many new cells that hold undefined, in a row. -/
def allocateMany (count : Nat) : StateM Heap (Array CellId) :=
  modifyGet fun heap =>
    ((Array.range count).map fun position => ⟨heap.cells.size + position⟩,
      { heap with cells := heap.cells ++ Array.replicate count {} })

/-- A new cell that holds a new array of undefined elements. -/
def allocateArray (size : Nat) : StateM Heap CellId := do
  allocateContent (.array (← newArray (← allocateMany size)))

/-- A new cell that holds a new function. -/
def allocateFunction (body : FunctionBody) : StateM Heap CellId := do
  allocateContent (.function (← newFunction body))

end Heap

end ScriptEngine
