/-
This file reads decimal literals. A literal is an optional sign, digits with at most one
point among or around them, and an optional exponent; its value is an integer times a power
of ten, and the double it denotes is the nearest one.
-/

import ScriptEngine.Number.Exact
import ScriptEngine.Text

namespace ScriptEngine.Number

/-- The number `digits * 10 ^ exponent` with its sign. -/
structure Decimal where
  negative : Bool
  digits : Nat
  exponent : Int
  deriving DecidableEq, Repr

namespace Decimal

/-- The double nearest to a decimal. -/
def toFloat (decimal : Decimal) : Float :=
  ofRatio decimal.negative (decimal.digits * Nat.pow 10 decimal.exponent.toNat)
    (Nat.pow 10 (-decimal.exponent).toNat)

/-! ### Reading a literal -/

/-- Whether a byte is an ASCII digit. -/
def isDigit (byte : UInt8) : Bool := 48 ≤ byte && byte ≤ 57

/-- The number that ASCII digits spell. -/
def digitsValue (digits : Text) : Nat :=
  digits.foldl (fun value digit => value * 10 + (digit.toNat - 48)) 0

/-- The exponent that ASCII digits spell. Once it has reached 10000 further digits are not
counted: the literal is then zero or out of range whatever they are. -/
def exponentValue (digits : Text) : Nat :=
  digits.foldl (fun value digit =>
    if value < 10000 then value * 10 + (digit.toNat - 48) else value) 0

/-- A sign at the front of a text, and the rest. -/
def splitSign : Text → Bool × Text
  | 45 :: rest => (true, rest)
  | 43 :: rest => (false, rest)
  | text => (false, text)

/-- The fraction digits at the front of a text, and the rest. -/
def splitFraction : Text → Text × Text
  | 46 :: rest => (rest.takeWhile isDigit, rest.dropWhile isDigit)
  | text => ([], text)

/-- The exponent that makes up a whole text: none at all, or a letter `e`, an optional sign and
at least one digit. -/
def exponent? : Text → Option Int
  | [] => some 0
  | mark :: rest =>
    if mark = 101 ∨ mark = 69 then
      let (negative, digits) := splitSign rest
      if digits ≠ [] ∧ digits.all isDigit then
        some (if negative then -(exponentValue digits : Int) else exponentValue digits)
      else none
    else none

/-- The decimal a literal denotes. -/
def read? (text : Text) : Option Decimal := do
  let (negative, unsigned) := splitSign text
  let whole := unsigned.takeWhile isDigit
  let (fraction, rest) := splitFraction (unsigned.dropWhile isDigit)
  if whole ++ fraction = [] then none
  let exponent ← exponent? rest
  return {
    negative
    digits := digitsValue (whole ++ fraction)
    exponent := exponent - fraction.length }

end Decimal

end ScriptEngine.Number
