/-
This file describes what can be called. A function either names the address of its first
instruction or is one of the engine's native functions; both kinds carry the parameter
names they print with, and say what they build when called as constructors.
-/

import ScriptEngine.Heap.Table

namespace ScriptEngine

/-- What a function builds when it is called as a constructor. Codes beyond the four known ones
behave like `object`. -/
inductive ConstructKind where
  | object
  | array
  | boolean
  | number
  | unknown (beyond : Fin 252)
  deriving DecidableEq, Repr, Inhabited

namespace ConstructKind

/-- The code of a kind. -/
def code : ConstructKind → UInt8
  | .object => 0
  | .array => 1
  | .boolean => 2
  | .number => 3
  | .unknown beyond => (4 + beyond.val).toUInt8

/-- The kind with a code. -/
def ofCode (code : UInt8) : ConstructKind :=
  match code.toNat with
  | 0 => .object
  | 1 => .array
  | 2 => .boolean
  | 3 => .number
  | beyond + 4 => .unknown (Fin.ofNat 252 beyond)

/-- The name of a kind. -/
def name : ConstructKind → Text
  | .object => "object"
  | .array => "array"
  | .boolean => "boolean"
  | .number => "number"
  | .unknown beyond =>
    Text.ofString "construct(" ++ Text.ofNat (4 + beyond.val) ++ Text.ofString ")"

/-- The kinds that have a name of their own. -/
def known : List ConstructKind := [.object, .array, .boolean, .number]

/-- The known kind with a name. -/
def ofName? (name : Text) : Option ConstructKind :=
  known.find? fun kind => kind.name = name

/-- Whether a new receiver starts with the properties of the constructor's prototype. -/
def copiesPrototype : ConstructKind → Bool
  | .array | .boolean | .number => false
  | .object | .unknown _ => true

end ConstructKind

/-- The functions that are not written in the engine's own code: those the engine provides, and one
of the sort that a host installs of its own, as it may any function. -/
inductive Native where
  /-- Writes its arguments, with a blank between them, as one line. -/
  | print
  /-- Fails unless its two arguments are equal. -/
  | assertEqual
  /-- Calls its first argument with the others. -/
  | invoke
  /-- Makes an array of a length or of its arguments. -/
  | array
  /-- Converts to a number. -/
  | number
  /-- Converts to 1 or 0 by truth. -/
  | boolean
  /-- Makes an empty object. -/
  | object
  /-- Of a host's own: hands its first argument back; if there is none, its missing answer counts as
  undefined. -/
  | echo
  deriving DecidableEq, Repr, Inhabited

/-- A function. A script function has no native part and starts at `entry`. -/
structure FunctionBody where
  name : Text := []
  params : List Text := []
  entry : Int64 := 0
  native : Option Native := none
  constructs : ConstructKind := .object
  properties : Table := {}
  deriving DecidableEq, Inhabited

end ScriptEngine
