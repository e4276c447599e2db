/-
This file is about properties. Reading a property of an object, an array or a function
gives the cell behind the name, and makes one that holds undefined when there is none, so
that a store through the cell that was read is an assignment. The elements of an array are
the properties whose names are canonical numerals below a bound; reading or assigning one
beyond the end makes the array longer. Numbers, texts and the like have no properties to
assign: reading gives a fresh read-only cell.
-/

import ScriptEngine.Value.Conversion

namespace ScriptEngine

/-! ### Names of array elements -/

/-- The position that a name addresses in an array: a decimal numeral without sign and without
leading zeros, below the bound on sizes. -/
def arrayIndex? (name : Text) : Option Nat :=
  if name = [] ∨ (1 < name.length ∧ name.head? = some 48) then none
  else match Text.digits? name with
    | some position => if position < Number.sizeBound then some position else none
    | none => none

namespace Heap

/-! ### The table behind a value -/

/-- The properties of an object or a function; other values have none. -/
def properties? (heap : Heap) : Content → Option Table
  | .object id => some (heap.object id)
  | .function id => some (heap.function id).properties
  | _ => none

/-- Changes the properties of an object or a function. -/
def modifyProperties (content : Content) (change : Table → Table) : StateM Heap Unit :=
  match content with
  | .object id => modifyObject id change
  | .function id => modifyFunction id fun body => { body with properties := change body.properties }
  | .array id => modifyArray id fun body => { body with properties := change body.properties }
  | _ => return

/-- The cell under a name in the given table of a value, made if it is absent. -/
def slot (content : Content) (table : Table) (name : Text) : StateM Heap CellId :=
  match table.get? name with
  | some cell => return cell
  | none => do
    let cell ← allocateContent .undefined
    modifyProperties content fun table => table.insert name cell
    return cell

/-! ### Arrays -/

/-- Makes an array at least `size` elements long; new elements are undefined. -/
def growArray (id : ArrayId) (size : Nat) : StateM Heap Unit := do
  let present := ((← get).array id).elements.size
  let cells ← allocateMany (size - present)
  modifyArray id fun body => { body with elements := body.elements ++ cells }

/-- Puts a cell at a position of an array. -/
def assignElement (id : ArrayId) (position : Nat) (cell : CellId) : StateM Heap Unit := do
  growArray id (position + 1)
  modifyArray id fun body =>
    { body with elements := body.elements.setIfInBounds position cell }

/-- The cell behind a name of an array. -/
def arrayProperty (id : ArrayId) (name : Text) : StateM Heap CellId :=
  match arrayIndex? name with
  | some position => do
    growArray id (position + 1)
    return ((← get).array id).elements.getD position default
  | none => do
    if name = "length" then
      let length := ((← get).array id).elements.size
      allocate { content := .number (Float.ofNat length), readOnly := true }
    else slot (.array id) ((← get).array id).properties name

/-! ### Functions -/

/-- The name of the object that new receivers are filled from. -/
def prototypeName : Text := "prototype"

/-- Gives a function its prototype object, unless it has one. -/
def prepare (id : FunctionId) : StateM Heap Unit := do
  match ((← get).function id).properties.get? prototypeName with
  | some _ => return
  | none =>
    let cell ← allocateObject
    modifyFunction id fun body =>
      { body with properties := body.properties.insert prototypeName cell }

/-! ### Any value -/

/-- What a name means on a text: its length in characters, or the character at a position. -/
def textProperty (text name : Text) : Content :=
  let chars := text.chars
  if name = "length" then .number (Float.ofNat chars.length)
  else match Text.int64? name with
    | some position =>
      if 0 ≤ position then
        match chars[position.toNatClampNeg]? with
        | some char => .text (String.utf8EncodeChar char)
        | none => .undefined
      else .undefined
    | none => .undefined

/-- The cell behind a name of a value. -/
def getProperty (content : Content) (name : Text) : StateM Heap CellId :=
  match content with
  | .object id => do slot content ((← get).object id) name
  | .array id => arrayProperty id name
  | .function id => do
    if name = prototypeName then prepare id
    slot content ((← get).function id).properties name
  | .text value => allocate { content := textProperty value name, readOnly := true }
  | .null | .undefined | .number _ => allocate { content := .undefined, readOnly := true }

/-- Puts a cell under a name of a value; false when the value has no properties. -/
def setProperty (content : Content) (name : Text) (cell : CellId) : StateM Heap Bool :=
  match content with
  | .object _ | .function _ => do
    modifyProperties content fun table => table.insert name cell
    return true
  | .array id => do
    match arrayIndex? name with
    | some position => assignElement id position cell
    | none => modifyProperties content fun table => table.insert name cell
    return true
  | .null | .undefined | .number _ | .text _ => return false

/-! ### Prototypes -/

/-- Puts copies of cells under their names. -/
def setCopies (target : Content) : List (Text × CellId) → StateM Heap Unit
  | [] => return
  | (name, cell) :: rest => do
    let fresh ← copy cell
    let _ ← setProperty target name fresh
    setCopies target rest

/-- Fills a new receiver with copies of the properties that the constructor's prototype has at
this moment. -/
def copyPrototype (constructor : FunctionId) (target : Content) : StateM Heap Unit := do
  let heap ← get
  let body := heap.function constructor
  if body.constructs.copiesPrototype then
    match body.properties.get? prototypeName with
    | some prototype =>
      match heap.properties? (heap.content prototype) with
      | some table => setCopies target table.entries
      | none => return
    | none => return

end Heap

end ScriptEngine
