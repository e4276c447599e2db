/-
This file gives the meaning of the binary operators. Addition joins texts as soon as one
side is a text; comparison is by bytes between two texts and by number otherwise; equality
is loose between null and undefined and between numbers and texts, and by identity between
objects, arrays and functions. The bit operators work on 32-bit two's complement integers,
and the logical ones give 1 or 0 and not an operand.
-/

import ScriptEngine.Value.Conversion

namespace ScriptEngine

/-- The binary operators. -/
inductive BinaryOperator where
  | add
  | sub
  | mul
  | div
  | rem
  | lt
  | gt
  | le
  | ge
  | eq
  | ne
  | shl
  | shr
  | bitOr
  | bitAnd
  | or
  | and
  | xor
  deriving DecidableEq, Repr, Inhabited

namespace Content

/-- Whether two values are the same object, array or function. -/
def sameReference : Content → Content → Bool
  | .object left, .object right => left = right
  | .array left, .array right => left = right
  | .function left, .function right => left = right
  | _, _ => false

/-- Loose equality. -/
def looselyEqual (left right : Content) : Bool :=
  match left, right with
  | .null, _ | .undefined, _ => right.isNullish
  | .number value, .number other => value == other
  | .number value, .text _ => value == right.toNumber
  | .text value, .text other => value = other
  | .text _, .number other => left.toNumber == other
  | _, _ => left.sameReference right

/-- The order of two values: texts by bytes, all else by number; none when a side is not a
number. -/
def ordering? (left right : Content) : Option Ordering :=
  match left, right with
  | .text value, .text other =>
    some (if value < other then .lt else if other < value then .gt else .eq)
  | _, _ =>
    let value := left.toNumber
    let other := right.toNumber
    if value.isNaN || other.isNaN then none
    else some (if value < other then .lt else if other < value then .gt else .eq)

/-- Whether the order of two values exists and passes a test. -/
def compares (test : Ordering → Bool) (left right : Content) : Content :=
  ofBool ((left.ordering? right).any test)

/-- The 32-bit integer of a value. -/
def toInt32 (content : Content) : Int32 :=
  Number.toInt32 content.toNumber

/-- The number of a 32-bit integer. -/
def ofInt32 (value : Int32) : Content :=
  .number (Number.ofInteger value.toInt)

/-- The shift that a value asks for: its low five bits. -/
def shiftCount (content : Content) : Int32 :=
  content.toInt32 &&& 31

end Content

/-- The result of a binary operator. -/
def Heap.binary (heap : Heap) (operator : BinaryOperator) (left right : Content) : Content :=
  match operator with
  | .add =>
    if left.kind = .text ∨ right.kind = .text then .text (heap.render left ++ heap.render right)
    else .number (left.toNumber + right.toNumber)
  | .sub => .number (left.toNumber - right.toNumber)
  | .mul => .number (left.toNumber * right.toNumber)
  | .div => .number (left.toNumber / right.toNumber)
  | .rem => .number (Number.remainder left.toNumber right.toNumber)
  | .lt => Content.compares Ordering.isLT left right
  | .gt => Content.compares Ordering.isGT left right
  | .le => Content.compares Ordering.isLE left right
  | .ge => Content.compares Ordering.isGE left right
  | .eq => .ofBool (left.looselyEqual right)
  | .ne => .ofBool (!left.looselyEqual right)
  | .shl => .ofInt32 (left.toInt32 <<< right.shiftCount)
  | .shr => .ofInt32 (left.toInt32 >>> right.shiftCount)
  | .bitOr => .ofInt32 (left.toInt32 ||| right.toInt32)
  | .bitAnd => .ofInt32 (left.toInt32 &&& right.toInt32)
  | .xor => .ofInt32 (left.toInt32 ^^^ right.toInt32)
  | .or => .ofBool (left.truthy || right.truthy)
  | .and => .ofBool (left.truthy && right.truthy)

/-- Whether two cells are one cell, or refer to the same object, array or function. -/
def Heap.same (heap : Heap) (left right : CellId) : Bool :=
  left = right || (heap.content left).sameReference (heap.content right)

end ScriptEngine
