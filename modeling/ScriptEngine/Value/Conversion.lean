/-
This file converts values for the operators: to a truth value, to a number, and through
text to a number. The last conversion is the one of the unary operators; it turns whatever
has no numeric text into undefined.
-/

import ScriptEngine.Number.Integer
import ScriptEngine.Number.Numeral
import ScriptEngine.Value.Rendering

namespace ScriptEngine

namespace Content

/-- Whether a value counts as true. Null, undefined, zero, no number and the empty text do
not. -/
def truthy : Content → Bool
  | .null | .undefined => false
  | .number value => value != 0 && !value.isNaN
  | .text value => !value.isEmpty
  | .object _ | .array _ | .function _ => true

/-- The number of a value: null is zero, a text is what it denotes, and whatever denotes no
number is not a number. -/
def toNumber : Content → Float
  | .null => 0
  | .undefined => Number.notANumber
  | .number value => value
  | .text value => (Number.ofText? value).getD Number.notANumber
  | .object _ | .array _ | .function _ => Number.notANumber

/-- The number that a text denotes, or undefined. -/
def ofNumeral (text : Text) : Content :=
  match Number.ofText? text with
  | some value => .number value
  | none => .undefined

/-- The number 1 or 0. -/
def ofBool (truth : Bool) : Content :=
  .number (Number.ofBool truth)

end Content

/-- The number that the text of a value denotes, or undefined. -/
def Heap.reparse (heap : Heap) (content : Content) : Content :=
  Content.ofNumeral (heap.render content)

end ScriptEngine
