/-
This file looks settings up in configuration files. All files are read before the first
answer, and one file that is missing, malformed or against the schema spoils them all. A
setting with one value takes it from the first file that has it; a setting with a list can
ask for the values of all files in their order.
-/

import ScriptEngine.Config.Schema

namespace ScriptEngine

/-- That a setting cannot be told, because of a bad file or a value of the wrong sort. -/
inductive ConfigError where
  | unreadable
  deriving DecidableEq, Repr

namespace Config

/-- The records of all files, in the order of precedence. -/
structure Sources where
  files : List Value

/-- A file, if it can be read and satisfies the schema. -/
def file? (schema : Option Schema) (content : Option Text) : Option Value := do
  let value ← read? (← content)
  match schema with
  | none => some value
  | some schema => if schema.admits value then some value else none

/-- Reads all files; without a schema they may hold anything. -/
def load (schema : Option Schema) (contents : List (Option Text)) : Except ConfigError Sources :=
  match contents.mapM (file? schema) with
  | some files => return { files }
  | none => throw .unreadable

/-- Reads all files against the text of a schema; an empty text is no schema. -/
def loadText (schemaText : Text) (contents : List (Option Text)) : Except ConfigError Sources :=
  if schemaText = [] then load none contents
  else
    match schema? schemaText with
    | some schema => load (some schema) contents
    | none => throw .unreadable

/-- The names on a path that is written with points. -/
def path (text : Text) : List Text :=
  text.splitOn 46

namespace Sources

variable {Setting : Type}

/-- The values of a setting in the files that have it. -/
def values (sources : Sources) (path : List Text) : List Value :=
  sources.files.filterMap fun file => file.at? path

/-- What a value is read as, or the error that it is of the wrong sort. -/
def decoded (read : Value → Option Setting) (value : Value) : Except ConfigError Setting :=
  match read value with
  | some setting => return setting
  | none => throw .unreadable

/-- The value of a setting in the first file that has it. -/
def first (sources : Sources) (path : List Text) (read : Value → Option Setting) :
    Except ConfigError (Option Setting) :=
  match sources.values path with
  | [] => return none
  | value :: _ => do return some (← decoded read value)

/-- The values of a setting in all files that have it. -/
def all (sources : Sources) (path : List Text) (read : Value → Option Setting) :
    Except ConfigError (List Setting) :=
  (sources.values path).mapM (decoded read)

/-- The values of a setting in the first files that have it, so many of them at most. -/
def upTo (sources : Sources) (count : Nat) (path : List Text) (read : Value → Option Setting) :
    Except ConfigError (List Setting) :=
  ((sources.values path).take count).mapM (decoded read)

end Sources

end Config

end ScriptEngine
