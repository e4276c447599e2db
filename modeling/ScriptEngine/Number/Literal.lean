/-
This file reads floating-point literals in all their forms: decimal ones, hexadecimal ones
with a power of two, and the words for infinity and for no number. A single underscore may
stand between two digits, or between the mark of a hexadecimal literal and its first digit.
On a command line a literal out of range is an error; in scripts it is an infinity.
-/

import ScriptEngine.Number.Decimal
import ScriptEngine.Text.Quoted

namespace ScriptEngine.Number

/-- What is wrong with a numeral. -/
inductive NumeralProblem where
  | malformed
  | outOfRange
  deriving DecidableEq, Repr

namespace Literal

/-- An ASCII letter in lower case. -/
def lower (byte : UInt8) : UInt8 :=
  if 65 ≤ byte ∧ byte ≤ 90 then byte + 32 else byte

/-- The value of a hexadecimal digit. -/
def hexDigit? (byte : UInt8) : Option Nat :=
  Text.Quoted.hexValue? (Char.ofNat byte.toNat)

/-- The number that hexadecimal digits spell. -/
def hexValue (digits : Text) : Nat :=
  digits.foldl (fun value digit => value * 16 + (hexDigit? digit).getD 0) 0

/-- Whether a byte is a hexadecimal digit. -/
def isHexDigit (byte : UInt8) : Bool := (hexDigit? byte).isSome

/-! ### Words -/

/-- The number that a word means, in letters of either case. Only infinity takes a sign. -/
def word? (text : Text) : Option Float :=
  let (negative, unsigned) := Decimal.splitSign text
  let word := unsigned.map lower
  if word = "inf" ∨ word = "infinity" then some (infinity negative)
  else if text.map lower = "nan" then some notANumber
  else none

/-! ### Hexadecimal literals -/

/-- The digits behind the mark of a hexadecimal literal, if a text starts with one and goes on
behind it. -/
def hexadecimal? : Text → Option Text
  | 48 :: mark :: rest => if lower mark = 120 ∧ rest ≠ [] then some rest else none
  | _ => none

/-- The power of two that makes up a whole text: a letter `p`, an optional sign and at least one
digit. -/
def power? : Text → Option Int
  | [] => none
  | mark :: rest => if lower mark = 112 then Decimal.exponent? (101 :: rest) else none

/-- The number of a hexadecimal literal, from the digits on. -/
def ofHexadecimal? (negative : Bool) (text : Text) : Option Float := do
  let whole := text.takeWhile isHexDigit
  let behind := text.dropWhile isHexDigit
  let (fraction, rest) := match behind with
    | 46 :: rest => (rest.takeWhile isHexDigit, rest.dropWhile isHexDigit)
    | rest => ([], rest)
  if whole ++ fraction = [] then none
  let power ← power? rest
  return ofBinary negative (hexValue (whole ++ fraction)) (power - 4 * fraction.length)

/-! ### Underscores -/

/-- Whether each underscore stands between digits, given whether a digit stands before. -/
def separated (isDigit : UInt8 → Bool) : (behindDigit : Bool) → Text → Bool
  | _, [] => true
  | behindDigit, byte :: rest =>
    if byte = 95 then
      behindDigit && (rest.head?.any isDigit) && separated isDigit false rest
    else separated isDigit (isDigit byte) rest

/-- Whether all underscores of an unsigned literal stand where they may. -/
def underscoresFine (unsigned : Text) : Bool :=
  match hexadecimal? unsigned with
  | some digits => separated isHexDigit true digits
  | none => separated Decimal.isDigit false unsigned

/-! ### All literals -/

/-- The number of a literal without underscores. -/
def plain? (text : Text) : Option Float :=
  let (negative, unsigned) := Decimal.splitSign text
  match hexadecimal? unsigned with
  | some digits => ofHexadecimal? negative digits
  | none => (Decimal.read? text).map Decimal.toFloat

/-- The number of a literal that is no word; an infinity if it is out of range. -/
def separated? (text : Text) : Option Float :=
  if underscoresFine (Decimal.splitSign text).2 then plain? (text.filter (· ≠ 95)) else none

/-- The number of a literal; an infinity if it is out of range. -/
def value? (text : Text) : Option Float :=
  (word? text).or (separated? text)

/-- The number of a literal within range. -/
def read (text : Text) : Except NumeralProblem Float :=
  match word? text with
  | some number => .ok number
  | none =>
    match separated? text with
    | some number => if number.isInf then .error .outOfRange else .ok number
    | none => .error .malformed

end Literal

end ScriptEngine.Number
