/-
This file names the modes that a host can run the engine in.
-/

import ScriptEngine.Text

namespace ScriptEngine

/-- The mode of a host. -/
inductive Mode where
  | production
  | development
  deriving DecidableEq, Repr

namespace Mode

/-- The mode with a code. -/
def ofCode? : Nat → Option Mode
  | 1 => some .production
  | 2 => some .development
  | _ => none

/-- The name of a mode. -/
def name : Mode → Text
  | .production => "production"
  | .development => "development"

/-- The name of the mode with a code. -/
def nameOfCode (code : Nat) : Text :=
  match ofCode? code with
  | some mode => mode.name
  | none => "unknown"

end Mode

end ScriptEngine
