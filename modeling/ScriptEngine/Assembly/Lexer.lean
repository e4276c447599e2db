/-
This file cuts an assembly source into tokens. The source is cut into lexemes that together
are the whole of it: at each place the first character says what sort of lexeme starts
there and how far it goes. Blanks and comments are lexemes too, and are dropped once the
positions of the others are known.
-/

import ScriptEngine.Assembly.Token
import ScriptEngine.Text.Blank
import ScriptEngine.Text.DecimalDigit
import ScriptEngine.Text.Letter

namespace ScriptEngine.Assembly

open Text (isBlank isDecimalDigit isLetter)

/-- Whether a character can stand in an identifier. -/
def isIdentifierChar (char : Char) : Bool :=
  isLetter char || isDecimalDigit char || char = '_' || char = '$' || char = '.' || char = '-' ||
    char = '+'

/-- Whether a character is white space within a line. -/
def isLineBlank (char : Char) : Bool :=
  char ≠ '\n' && isBlank char

/-- Whether a character is a symbol by itself. -/
def isSymbolChar (char : Char) : Bool :=
  char = '(' || char = ')' || char = ',' || char = ':' || char = '@'

/-! ### How far lexemes go -/

/-- How many of the characters behind the first belong to a run of one class. -/
def runLength (belongs : Char → Bool) (rest : List Char) : Nat :=
  (rest.takeWhile belongs).length

/-- How many characters continue a number. A sign continues it only behind the letter of an
exponent. -/
def numberLength : (behindExponent : Bool) → List Char → Nat
  | _, [] => 0
  | behindExponent, char :: rest =>
    if char = 'e' ∨ char = 'E' then numberLength true rest + 1
    else if isDecimalDigit char ∨ char = '.' ∨ (behindExponent ∧ (char = '-' ∨ char = '+')) then
      numberLength false rest + 1
    else 0

/-- How many characters a string takes up to and with its closing quote; none when the line ends
first. -/
def closingLength : (escaped : Bool) → List Char → Option Nat
  | _, [] => none
  | escaped, char :: rest =>
    if char = '\n' then none
    else if escaped then (closingLength false rest).map (· + 1)
    else if char = '\\' then (closingLength true rest).map (· + 1)
    else if char = '"' then some 1
    else (closingLength false rest).map (· + 1)

/-- Whether a character that follows a sign makes a number of them. -/
def startsUnsigned : List Char → Bool
  | [] => false
  | char :: _ => isDecimalDigit char || char = '.'

/-! ### Lexemes -/

/-- The sorts of lexemes. -/
inductive LexemeSort where
  | blank
  | comment
  | endOfLine
  | string
  | openString
  | number
  | identifier
  | symbol
  | invalid
  deriving DecidableEq, Repr

/-- The sort of the lexeme that starts with a character, and how many further characters belong
to it. -/
def lexemeAt (char : Char) (rest : List Char) : LexemeSort × Nat :=
  if char = '\n' then (.endOfLine, 0)
  else if isBlank char then (.blank, runLength isLineBlank rest)
  else if char = '#' ∨ char = ';' then (.comment, runLength (· ≠ '\n') rest)
  else if char = '"' then
    match closingLength false rest with
    | some length => (.string, length)
    | none => (.openString, runLength (· ≠ '\n') rest)
  else if isDecimalDigit char then (.number, numberLength false rest)
  else if char = '-' ∨ char = '+' then
    if startsUnsigned rest then (.number, numberLength false rest)
    else (.identifier, runLength isIdentifierChar rest)
  else if isSymbolChar char then (.symbol, 0)
  else if isIdentifierChar char then (.identifier, runLength isIdentifierChar rest)
  else (.invalid, 0)

/-- A lexeme: its sort, its characters and where it starts. -/
structure Lexeme where
  sort : LexemeSort
  chars : List Char
  position : Position
  deriving DecidableEq

/-- The lexemes of a source in order, and the position behind them. -/
def lexemes (position : Position) : List Char → List Lexeme × Position
  | [] => ([], position)
  | char :: rest =>
    let (sort, length) := lexemeAt char rest
    let chars := char :: rest.take length
    let (others, last) := lexemes (position.advance chars) (rest.drop length)
    (⟨sort, chars, position⟩ :: others, last)
termination_by source => source.length
decreasing_by
  simp only [List.length_cons, List.length_drop]
  omega

/-! ### Tokens -/

/-- A string literal without its quotes. -/
def unquoted (chars : List Char) : List Char :=
  chars.tail.dropLast

/-- The token of a lexeme; blanks and comments have none. A plus sign in front of a number is
dropped, and a string whose escapes are wrong is invalid as it stands. -/
def Lexeme.token? (lexeme : Lexeme) : Option Token :=
  let raw := Text.ofChars lexeme.chars
  let position := lexeme.position
  match lexeme.sort with
  | .blank | .comment => none
  | .endOfLine => some ⟨.endOfLine, [], position⟩
  | .identifier => some ⟨.identifier, raw, position⟩
  | .symbol => some ⟨.symbol, raw, position⟩
  | .invalid | .openString => some ⟨.invalid, raw, position⟩
  | .number =>
    match lexeme.chars with
    | '+' :: digits => some ⟨.number, Text.ofChars digits, position⟩
    | _ => some ⟨.number, raw, position⟩
  | .string =>
    match Text.Quoted.decode (unquoted lexeme.chars) with
    | some text => some ⟨.text, text, position⟩
    | none => some ⟨.invalid, raw, position⟩

/-- The tokens of a source; the last one is the end of input. -/
def tokens (source : Text) : List Token :=
  let (found, last) := lexemes {} source.chars
  found.filterMap Lexeme.token? ++ [⟨.endOfInput, [], last⟩]

end ScriptEngine.Assembly
