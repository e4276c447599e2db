/-
This file describes the tokens of assembly sources. A token has a kind, the text it stands
for and the place where it starts; the text of a string is what its literal denotes, and
the text of an invalid token is what was read.
-/

import ScriptEngine.Text.Quoted

namespace ScriptEngine.Assembly

/-- The kinds of tokens. -/
inductive TokenKind where
  | endOfInput
  | endOfLine
  | identifier
  | number
  | text
  | symbol
  | invalid
  deriving DecidableEq, Repr, Inhabited

namespace TokenKind

/-- All kinds in the order of their codes. -/
def all : List TokenKind :=
  [.endOfInput, .endOfLine, .identifier, .number, .text, .symbol, .invalid]

/-- The name of a kind. -/
def label : TokenKind → Text
  | .endOfInput => "end of input"
  | .endOfLine => "end of line"
  | .identifier => "identifier"
  | .number => "number"
  | .text => "string"
  | .symbol => "symbol"
  | .invalid => "invalid token"

/-- The name that goes with a code, known or not. -/
def labelOfCode (code : Nat) : Text :=
  match all[code]? with
  | some kind => kind.label
  | none => Text.ofString "token(" ++ Text.ofNat code ++ Text.ofString ")"

end TokenKind

/-- A line and a column, both counted from one. -/
structure Position where
  line : Nat := 1
  column : Nat := 1
  deriving DecidableEq, Repr, Inhabited

/-- The position behind a character. -/
def Position.step (position : Position) (char : Char) : Position :=
  if char = '\n' then ⟨position.line + 1, 1⟩ else ⟨position.line, position.column + 1⟩

/-- The position behind some characters. -/
def Position.advance (position : Position) (chars : List Char) : Position :=
  chars.foldl Position.step position

/-- A token. -/
structure Token where
  kind : TokenKind := .endOfInput
  text : Text := []
  position : Position := {}
  deriving DecidableEq, Inhabited

namespace Token

/-- Whether a token is of a kind and has a text. -/
def is (token : Token) (kind : TokenKind) (text : Text) : Bool :=
  token.kind = kind && token.text = text

/-- How messages show a token: its kind, and its text in quotes unless it has none. -/
def shown (token : Token) : Text :=
  match token.kind with
  | .endOfInput | .endOfLine => token.kind.label
  | kind => kind.label ++ Text.ofString " " ++ Text.Quoted.encode token.text

end Token

end ScriptEngine.Assembly
