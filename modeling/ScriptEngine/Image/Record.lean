/-
This file reads records out of data items. A record is a map with numbered fields. Of two
entries for one field the first counts, entries for unknown fields are passed over, and a
field that is missing, null or undefined is at its zero. Tags are looked through once their
content is of the sort they call for; a tagged number in bytes is the integer it spells.
-/

import ScriptEngine.Image.Reader
import ScriptEngine.Text.Utf8

namespace ScriptEngine

namespace Item

variable {Value : Type}

/-! ### Tags -/

/-- Whether a tag may stand before an item. -/
def admits (tag : Nat) (content : Item) : Bool :=
  match tag, content with
  | 0, .text _ => true
  | 0, _ => false
  | 1, .unsigned _ | 1, .negative _ | 1, .float _ => true
  | 1, _ => false
  | 2, .bytes _ | 3, .bytes _ => true
  | 2, _ | 3, _ => false
  | _, _ => true

/-- An item without its tags. The tags 2 and 3 before bytes make an integer of them. -/
def untagged? : Item → Option Item
  | .tagged tag content =>
    if admits tag content then
      match tag, content with
      | 2, .bytes pieces => some (.unsigned (bigEndianValue pieces.flatten))
      | 3, .bytes pieces => some (.negative (bigEndianValue pieces.flatten))
      | _, _ => untagged? content
    else none
  | item => some item

/-! ### Fields -/

/-- Whether an item stands for no value. -/
def isAbsent : Item → Bool
  | .simple code => code == 22 || code == 23
  | _ => false

/-- What an item holds, or the zero of its type if it stands for no value. -/
def orZero (zero : Value) (read : Item → Option Value) (item : Item) : Option Value := do
  let item ← item.untagged?
  if item.isAbsent then some zero else read item

/-- An integer, within what 64 bits can hold with or without a sign. A simple value other than a
truth value counts as its code. -/
def integer? : Item → Option Int
  | .unsigned value => if value < UInt64.size then some value else none
  | .negative below => if below < Nat.pow 2 63 then some (-1 - below) else none
  | .simple code => if 20 ≤ code ∧ code ≤ 23 then none else some code
  | _ => none

/-- A signed integer of 64 bits. -/
def int64? (item : Item) : Option Int64 := do
  let value ← item.integer?
  if value ≤ Int64.maxValue.toInt then some (Int64.ofInt value) else none

/-- An integer of one byte without sign. -/
def byte? (item : Item) : Option UInt8 := do
  let value ← item.integer?
  if 0 ≤ value ∧ value < 256 then some value.toNat.toUInt8 else none

/-- A number; an integer is rounded to the nearest double. -/
def number? : Item → Option Float
  | .float value => some value
  | item => item.integer?.map fun value => Number.ofRatio (value < 0) value.natAbs 1

/-- A truth value. -/
def bool? : Item → Option Bool
  | .simple 20 => some false
  | .simple 21 => some true
  | _ => none

/-- A text, each piece of which has to be well-formed. -/
def text? : Item → Option Text
  | .text pieces => if pieces.all Text.isUtf8 then some pieces.flatten else none
  | _ => none

/-- A list; members that stand for no value are at their zero. -/
def list? (zero : Value) (read : Item → Option Value) : Item → Option (List Value)
  | .sequence items => items.mapM (orZero zero read)
  | _ => none

/-! ### Records -/

/-- How a map names a field. -/
inductive Key where
  | number (value : Int64)
  | name (value : Text)
  deriving DecidableEq

/-- The key that an item is. Integers wrap to 64 bits. -/
def key? : Item → Option Key
  | .unsigned value => some (.number (Int64.ofNat value))
  | .negative below => some (.number (Int64.ofInt (-1 - below)))
  | .text pieces => (Item.text pieces).text?.map .name
  | _ => none

/-- Whether a key names a field: by its number, or by the numeral of it. -/
def Key.names (key : Key) (field : Nat) : Bool :=
  match key with
  | .number value => value == Int64.ofNat field
  | .name value => value == Text.ofNat field

/-- The entries of a record. -/
abbrev Record := List (Key × Item)

/-- The record that an item is. -/
def record? : Item → Option Record
  | .map entries => entries.mapM fun (key, value) => do return (← key.key?, value)
  | _ => none

/-- A field of a record. -/
def Record.field (record : Record) (field : Nat) (zero : Value) (read : Item → Option Value) :
    Option Value :=
  match record.find? fun (key, _) => key.names field with
  | some (_, item) => item.orZero zero read
  | none => some zero

/-- The map of the fields that are given, in their order. -/
def ofFields (fields : List (Nat × Option Item)) : Item :=
  .map (fields.filterMap fun (field, item?) => item?.map fun item => (.unsigned field, item))

/-- A field that is left out when it has a certain value. -/
def omitting [DecidableEq Value] (zero value : Value) (item : Value → Item) : Option Item :=
  if value = zero then none else some (item value)

end Item

end ScriptEngine
