/-
This file is about the values of configuration files. A file is a record. Saying the same
thing twice is allowed and saying two different things is not: values are merged, records
field by field and lists item by item, and two scalars merge only when they are equal.
-/

import ScriptEngine.Number.Decimal

namespace ScriptEngine.Config

open Number (Decimal)

/-- A value of a configuration file. -/
inductive Value where
  | null
  | bool (value : Bool)
  | integer (value : Int)
  /-- A number that is written with a point or an exponent. -/
  | number (value : Decimal)
  | text (value : Text)
  | list (items : List Value)
  | record (fields : List (Text × Value))
  deriving Inhabited

/-- The fields of a record, in the order in which they were first named. -/
abbrev Fields := List (Text × Value)

namespace Value

/-- A scalar that two places agree on. -/
def agreed {Scalar : Type} [DecidableEq Scalar] (wrap : Scalar → Value) (left right : Scalar) :
    Option Value :=
  if left = right then some (wrap left) else none

/-- Puts a value under a name, in the place of the one that is there. -/
def replaceField (name : Text) (value : Value) : Fields → Fields
  | [] => [(name, value)]
  | (other, old) :: rest =>
    if other = name then (name, value) :: rest else (other, old) :: replaceField name value rest

mutual

/-- The value that says what two values say; none if they contradict each other. -/
def merge : Value → Value → Option Value
  | .null, .null => some .null
  | .bool left, .bool right => agreed .bool left right
  | .integer left, .integer right => agreed .integer left right
  | .number left, .number right => agreed .number left right
  | .text left, .text right => agreed .text left right
  | .list left, .list right => (mergeItems left right).map .list
  | .record left, .record right => (mergeFields left right).map .record
  | _, _ => none

/-- Merges the items of two lists of the same length. -/
def mergeItems : List Value → List Value → Option (List Value)
  | [], [] => some []
  | left :: lefts, right :: rights => do
    let first ← merge left right
    return first :: (← mergeItems lefts rights)
  | _, _ => none

/-- Merges fields into others. -/
def mergeFields (fields : Fields) : Fields → Option Fields
  | [] => some fields
  | (name, value) :: rest =>
    match fields.lookup name with
    | none => mergeFields (fields ++ [(name, value)]) rest
    | some old =>
      match merge old value with
      | some both => mergeFields (replaceField name both fields) rest
      | none => none

end

/-- The value at a path of names. -/
def at? : List Text → Value → Option Value
  | [], value => some value
  | name :: path, .record fields =>
    match fields.lookup name with
    | some value => at? path value
    | none => none
  | _ :: _, _ => none

/-! ### Reading values as host data -/

/-- A value as a truth value. -/
def bool? : Value → Option Bool
  | .bool value => some value
  | _ => none

/-- A value as a 64-bit integer. -/
def int64? : Value → Option Int64
  | .integer value =>
    if Int64.minValue.toInt ≤ value ∧ value ≤ Int64.maxValue.toInt then some (Int64.ofInt value)
    else none
  | _ => none

/-- A value as a text. -/
def text? : Value → Option Text
  | .text value => some value
  | _ => none

/-- A value as a list of things that its items are; null is the empty list. -/
def list? {Item : Type} (item? : Value → Option Item) : Value → Option (List Item)
  | .list items => items.mapM item?
  | .null => some []
  | _ => none

end Value

end ScriptEngine.Config
