/-
This file lists what can be wrong with an assembly source. Each problem knows the words it
was made of; the text of its message is put together here and nowhere else.
-/

import ScriptEngine.Assembly.Token
import ScriptEngine.Program.Opcode

namespace ScriptEngine.Assembly

/-- What is wrong at a place of a source. -/
inductive Problem where
  | invalidToken (text : Text)
  | unexpected (token : Token)
  /-- A token of a kind was expected. -/
  | expectingKind (kind : TokenKind) (found : Token)
  /-- A certain symbol was expected. -/
  | expectingSymbol (symbol : Text) (found : Token)
  | expectingName (found : Token)
  | expectingJump (found : Token)
  | expectingLiteral (found : Token)
  | expectingParameter (found : Token)
  | duplicatedLabel (label : Text)
  | undefinedLabel (label : Text)
  | duplicatedFunction (name : Text)
  | undefinedFunction (name : Text)
  | unknownDirective (name : Text)
  | unknownOpcode (name : Text)
  | unknownConstruct (name : Text)
  | badCount (text : Text)
  | badJump (text : Text)
  | badNumber (text : Text)
  deriving DecidableEq

/-- A message of the form "expecting this, got that". -/
def expecting (wanted : Text) (found : Token) : Text :=
  Text.ofString "expecting " ++ wanted ++ Text.ofString ", got " ++ found.shown

/-- The message of a problem. -/
def Problem.message : Problem → Text
  | .invalidToken text => Text.ofString "invalid token " ++ Text.Quoted.encode text
  | .unexpected token => Text.ofString "unexpected " ++ token.shown
  | .expectingKind kind found => expecting kind.label found
  | .expectingSymbol symbol found => expecting (Text.Quoted.encode symbol) found
  | .expectingName found => expecting "a name" found
  | .expectingJump found => expecting "a jump target" found
  | .expectingLiteral found => expecting "a literal" found
  | .expectingParameter found => expecting "a parameter name" found
  | .duplicatedLabel label => Text.ofString "duplicated label " ++ label
  | .undefinedLabel label => Text.ofString "undefined label " ++ label
  | .duplicatedFunction name => Text.ofString "duplicated function " ++ name
  | .undefinedFunction name => Text.ofString "undefined function " ++ name
  | .unknownDirective name => Text.ofString "unknown directive " ++ name
  | .unknownOpcode name => Text.ofString "unknown opcode " ++ name
  | .unknownConstruct name => Text.ofString "unknown construct kind " ++ name
  | .badCount text => Text.ofString "bad count " ++ text
  | .badJump text => Text.ofString "bad jump offset " ++ text
  | .badNumber text => Text.ofString "bad number " ++ text

/-- A problem and its place. -/
structure SourceError where
  position : Position
  problem : Problem
  deriving DecidableEq

/-- The full message of a problem at a place. -/
def SourceError.message (error : SourceError) : Text :=
  Text.ofString "line " ++ Text.ofNat error.position.line ++ Text.ofString " column " ++
    Text.ofNat error.position.column ++ Text.ofString ": " ++ error.problem.message

/-- Why a source does not assemble. -/
inductive AssemblyError where
  | source (error : SourceError)
  /-- The entry address lies behind the end address. -/
  | entryAfterEnd (entry stop : Nat)
  /-- One instruction was wanted, and there are more or none. -/
  | notOneInstruction (count : Nat)
  deriving DecidableEq

/-- The message of an assembly error. -/
def AssemblyError.message : AssemblyError → Text
  | .source error => error.message
  | .entryAfterEnd entry stop =>
    Text.ofString "entry " ++ Text.ofNat entry ++ Text.ofString " is after end " ++ Text.ofNat stop
  | .notOneInstruction count =>
    Text.ofString "expecting one instruction, got " ++ Text.ofNat count

end ScriptEngine.Assembly
