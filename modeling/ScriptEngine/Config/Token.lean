/-
This file splits configuration files and their schemas into tokens. Blanks and comments
separate tokens and are dropped. A line that ends behind a token that can end a value ends
with a comma, whether one is written there or not, so that fields need no commas between
lines.
-/

import ScriptEngine.Number.Literal
import ScriptEngine.Text.Letter
import ScriptEngine.Text.DecimalDigit
import ScriptEngine.Text.Quoted
import ScriptEngine.Text.Utf8

namespace ScriptEngine.Config

open Number (Decimal)

/-- A token of a configuration file or a schema. -/
inductive Token where
  | name (text : Text)
  | text (value : Text)
  | integer (value : Nat)
  | number (value : Decimal)
  /-- A mark of one or more characters. -/
  | mark (symbol : String)
  deriving DecidableEq

/-- Whether a line break behind a token ends a field or an item. -/
def Token.endsValue : Token → Bool
  | .name _ | .text _ | .integer _ | .number _ => true
  | .mark symbol => [")", "]", "\x7d", "?", "..."].contains symbol

/-- The marks, longer ones before their beginnings. -/
def marks : List String :=
  ["...", ">=", "<=", ">", "<", "\x7b", "\x7d", "[", "]", "(", ")", ":", ",", "?", "!", "&", "|",
    "-", "+"]

/-- Whether a character can be part of a name. -/
def isNameChar (char : Char) : Bool :=
  Text.isLetter char || Text.isDecimalDigit char || char = '_' || char = '$' || char = '#'

/-! ### Strings -/

/-- The character of a one-letter escape. -/
def escaped? : Char → Option Char
  | 'a' => some '\x07'
  | 'b' => some '\x08'
  | 'f' => some '\x0c'
  | 'n' => some '\n'
  | 'r' => some '\r'
  | 't' => some '\t'
  | 'v' => some '\x0b'
  | '/' => some '/'
  | '\\' => some '\\'
  | '"' => some '"'
  | _ => none

/-- The character that as many hexadecimal digits name. -/
def codePoint? (digits : List Char) : Option Char := do
  let value ← digits.foldl (fun value digit => do
    return (← value) * 16 + (← Text.Quoted.hexValue? digit)) (some 0)
  if h : value.isValidChar then some (Char.ofNatAux value h) else none

/-- The characters of a string behind its opening quote, and what follows its closing one. -/
def string? : List Char → Option (List Char × List Char)
  | [] => none
  | '"' :: rest => some ([], rest)
  | '\n' :: _ => none
  | '\\' :: 'u' :: a :: b :: c :: d :: rest => do
    let char ← codePoint? [a, b, c, d]
    let (chars, rest) ← string? rest
    return (char :: chars, rest)
  | '\\' :: 'U' :: a :: b :: c :: d :: e :: f :: g :: h :: rest => do
    let char ← codePoint? [a, b, c, d, e, f, g, h]
    let (chars, rest) ← string? rest
    return (char :: chars, rest)
  | '\\' :: letter :: rest => do
    let char ← escaped? letter
    let (chars, rest) ← string? rest
    return (char :: chars, rest)
  | char :: rest => do
    let (chars, rest) ← string? rest
    return (char :: chars, rest)

/-! ### Numbers -/

/-- The factor that a suffix of an integer stands for. -/
def multiplier? : List Char → Option Nat
  | [] => some 1
  | ['K'] => some 1000
  | ['M'] => some (Nat.pow 1000 2)
  | ['G'] => some (Nat.pow 1000 3)
  | ['T'] => some (Nat.pow 1000 4)
  | ['P'] => some (Nat.pow 1000 5)
  | ['K', 'i'] => some 1024
  | ['M', 'i'] => some (Nat.pow 1024 2)
  | ['G', 'i'] => some (Nat.pow 1024 3)
  | ['T', 'i'] => some (Nat.pow 1024 4)
  | ['P', 'i'] => some (Nat.pow 1024 5)
  | _ => none

/-- The number that digits below a base spell. -/
def ofDigits? (base : Nat) (digits : List Char) : Option Nat :=
  if digits = [] then none
  else digits.foldl (fun value digit => do
    let digit ← Text.Quoted.hexValue? digit
    if digit < base then return (← value) * base + digit else none) (some 0)

/-- The integer of a word of digits: with a mark of the base in front, or decimal without a
leading zero and perhaps with a suffix. -/
def integer? : List Char → Option Nat
  | '0' :: 'x' :: digits => ofDigits? 16 digits
  | '0' :: 'o' :: digits => ofDigits? 8 digits
  | '0' :: 'b' :: digits => ofDigits? 2 digits
  | word =>
    let digits := word.takeWhile Char.isDigit
    if digits.length > 1 ∧ digits.head? = some '0' then none
    else do return (← ofDigits? 10 digits) * (← multiplier? (word.dropWhile Char.isDigit))

/-- The token of a word that starts with a digit or a point. -/
def numeral? (word : List Char) : Option Token :=
  let fine := Number.Literal.underscoresFine (Text.ofChars word)
  let plain := word.filter (· ≠ '_')
  if fine then
    match integer? plain with
    | some value => some (.integer value)
    | none =>
      if plain.any fun char => char = '.' || char = 'e' || char = 'E' then
        (Decimal.read? (Text.ofChars plain)).map .number
      else none
  else none

/-- How many characters of a text belong to a numeral, given whether an exponent mark stands
before. -/
def numeralLength : (behindMark : Bool) → List Char → Nat
  | _, [] => 0
  | behindMark, char :: rest =>
    if char.isAlphanum || char = '_' || char = '.' ||
        (behindMark && (char = '+' || char = '-')) then
      1 + numeralLength (char = 'e' || char = 'E') rest
    else 0

/-! ### Tokens -/

/-- A token in front of a text, and how many characters it takes. -/
def leading? (chars : List Char) : Option (Token × Nat) :=
  match chars with
  | [] => none
  | '"' :: rest => do
    let (value, behind) ← string? rest
    return (.text (Text.ofChars value), chars.length - behind.length)
  | char :: rest =>
    let startsNumeral := char.isDigit || (char = '.' && (rest.head?.any Char.isDigit))
    if startsNumeral then do
      let length := numeralLength false chars
      return (← numeral? (chars.take length), length)
    else if isNameChar char then
      let word := chars.takeWhile isNameChar
      some (.name (Text.ofChars word), word.length)
    else do
      let mark ← marks.find? fun mark => mark.toList.isPrefixOf chars
      return (.mark mark, mark.toList.length)

/-- The comma that a line break stands for behind some tokens. -/
def lineEnd (last : Option Token) : List Token :=
  if last.any Token.endsValue then [.mark ","] else []

/-- The tokens of a text, given the last one before it. -/
def tokensFrom (last : Option Token) (chars : List Char) : Option (List Token) :=
  match chars with
  | [] => some (lineEnd last)
  | '\n' :: rest => do return lineEnd last ++ (← tokensFrom none rest)
  | '/' :: '/' :: rest => tokensFrom last (rest.dropWhile (· ≠ '\n'))
  | char :: rest =>
    if char = ' ' || char = '\t' || char = '\r' then tokensFrom last rest
    else
      match leading? (char :: rest) with
      | none => none
      | some (token, length) => do
        return token :: (← tokensFrom (some token) (rest.drop (length - 1)))
termination_by chars.length
decreasing_by
  all_goals simp only [List.length_cons, List.length_drop]
  · omega
  · have := (List.dropWhile_sublist (· ≠ '\n') (l := rest)).length_le
    omega
  · omega
  · omega

/-- The tokens of a text, which has to be well-formed. -/
def tokens? (text : Text) : Option (List Token) :=
  if text.isUtf8 then tokensFrom none text.chars else none

end ScriptEngine.Config
