/-
This file describes the operand embedded in an instruction. It has a kind that says how it
is used, and one field per sort of operand; the fields of other sorts are usually at their
zero, but an operand keeps whatever it was given. What an operand may refer to is a
parameter: a program refers to its own functions by number, a loaded one to cells.
-/

import ScriptEngine.Number.Layout

namespace ScriptEngine

/-- How an operand is used. -/
inductive DatumKind where
  | null
  | number
  | text
  | name
  | bool
  | object
  | unknown (beyond : Fin 250)
  deriving DecidableEq, Repr, Inhabited

namespace DatumKind

/-- The kinds with a meaning, in the order of their codes. -/
def valid : List DatumKind := [.null, .number, .text, .name, .bool, .object]

/-- The name of a kind. -/
def label : DatumKind → Text
  | .null => "null"
  | .number => "number"
  | .text => "string"
  | .name => "name"
  | .bool => "bool"
  | .object => "object"
  | .unknown beyond => Text.ofString "datum(" ++ Text.ofNat (6 + beyond.val) ++ Text.ofString ")"

/-- The code of a kind. -/
def code : DatumKind → UInt8
  | .unknown beyond => (6 + beyond.val).toUInt8
  | kind => (valid.findIdx (· = kind)).toUInt8

/-- The kind with a code. -/
def ofCode (code : UInt8) : DatumKind :=
  match valid[code.toNat]? with
  | some kind => kind
  | none => .unknown (Fin.ofNat 250 (code.toNat - 6))

end DatumKind

/-- The operand of an instruction. -/
structure Datum (Reference : Type) where
  kind : DatumKind := .null
  number : Float := 0
  text : Text := []
  bool : Bool := false
  object : Option Reference := none
  deriving DecidableEq

namespace Datum

variable {Reference Other : Type}

instance : Inhabited (Datum Reference) := ⟨{}⟩

/-- The operand that is a number. -/
def ofNumber (value : Float) : Datum Reference := { kind := .number, number := value }

/-- The operand that is a text. -/
def ofText (value : Text) : Datum Reference := { kind := .text, text := value }

/-- The operand that is a name. -/
def ofName (value : Text) : Datum Reference := { kind := .name, text := value }

/-- The operand that is a truth value. -/
def ofBool (value : Bool) : Datum Reference := { kind := .bool, bool := value }

/-- The operand that is an object. -/
def ofObject (value : Option Reference) : Datum Reference := { kind := .object, object := value }

/-- The same operand with what it refers to replaced. -/
def map (change : Reference → Other) (datum : Datum Reference) : Datum Other :=
  { datum with object := datum.object.map change }

/-- The text that traces show for an operand; none for an operand of unknown kind. -/
def shown? (datum : Datum Reference) : Option Text :=
  match datum.kind with
  | .null => some "Null"
  | .number => some (Number.Layout.value.write datum.number)
  | .text | .name => some datum.text
  | .bool => some (if datum.bool then "true" else "false")
  | .object => some "[ object Object ]"
  | .unknown _ => none

/-- Why an operand of unknown kind has no text. -/
def unknownKind (kind : DatumKind) : Text :=
  Text.ofString "unknown datum kind " ++ kind.label

/-- The text that traces and fault reasons show for an operand, known or not. -/
def shown (datum : Datum Reference) : Text :=
  match datum.shown? with
  | some text => text
  | none =>
    Text.ofString "%!s(PANIC=String method: fatal: " ++ unknownKind datum.kind ++ Text.ofString ")"

end Datum

end ScriptEngine
