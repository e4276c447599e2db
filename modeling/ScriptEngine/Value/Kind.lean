/-
This file names the kinds of values. A kind is what a value is before anything about it is
looked at: the number of constructors of a content, without what they hold.
-/

import ScriptEngine.Heap

namespace ScriptEngine

/-- The kind of a value. -/
inductive ValueKind where
  | null
  | undefined
  | number
  | text
  | object
  | array
  | function
  deriving DecidableEq, Repr, Inhabited

namespace ValueKind

/-- All kinds in the order of their codes. -/
def all : List ValueKind := [.null, .undefined, .number, .text, .object, .array, .function]

/-- The name of a kind. -/
def name : ValueKind → Text
  | .null => "null"
  | .undefined => "undefined"
  | .number => "number"
  | .text => "string"
  | .object => "object"
  | .array => "array"
  | .function => "function"

/-- The name that goes with a code, known or not. -/
def nameOfCode (code : Nat) : Text :=
  match all[code]? with
  | some kind => kind.name
  | none => Text.ofString "kind(" ++ Text.ofNat code ++ Text.ofString ")"

end ValueKind

namespace Content

/-- The kind of a value. -/
def kind : Content → ValueKind
  | .null => .null
  | .undefined => .undefined
  | .number _ => .number
  | .text _ => .text
  | .object _ => .object
  | .array _ => .array
  | .function _ => .function

/-- Whether a value is null or undefined. -/
def isNullish : Content → Bool
  | .null | .undefined => true
  | _ => false

/-- The function a callable value refers to. -/
def callable? : Content → Option FunctionId
  | .function id => some id
  | _ => none

end Content

end ScriptEngine
