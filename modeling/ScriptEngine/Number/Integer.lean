/-
This file holds the integer side of numbers: the integer part of a double and the remainder of
two doubles, both computed on exact values, and from them the 32-bit two's complement image of
a double, for which only a sum and a comparison are left to the hardware.
-/

import ScriptEngine.Number.Exact

namespace ScriptEngine.Number

/-- `significand * 2 ^ exponent` without its fraction. -/
def integerPart (significand : Nat) (exponent : Int) : Nat :=
  significand * Nat.pow 2 exponent.toNat / Nat.pow 2 (-exponent).toNat

/-- An integer from its sign and magnitude. -/
def signed (negative : Bool) (magnitude : Nat) : Int :=
  if negative then -(magnitude : Int) else magnitude

/-- A double cut toward zero. An infinity and no number are left as they are. -/
def integral (value : Float) : Float :=
  match exact value with
  | .finite negative significand exponent =>
    ofBinary negative (integerPart significand exponent) 0
  | _ => value

/-- The double nearest to an integer. -/
def ofInteger (value : Int) : Float :=
  ofRatio (decide (value < 0)) value.natAbs 1

/-- The integer a double is equal to, if it is one. -/
def integer? (value : Float) : Option Int :=
  match exact value with
  | .finite negative significand exponent =>
    if significand * Nat.pow 2 exponent.toNat % Nat.pow 2 (-exponent).toNat = 0 then
      some (signed negative (integerPart significand exponent))
    else none
  | _ => none

/-- Sizes and array positions stay below this bound. -/
def sizeBound : Nat := Nat.pow 2 24

/-- The size a double denotes: an integer from 0 up to, not including, the bound. -/
def size? (value : Float) : Option Nat :=
  match integer? value with
  | some integer => if 0 ≤ integer ∧ integer < sizeBound then some integer.toNat else none
  | none => none

/-- The remainder of a truncated division. It has the sign of the dividend, is exact, and is no
number when the dividend is infinite or the divisor zero. -/
def remainder (dividend divisor : Float) : Float :=
  match exact dividend, exact divisor with
  | .finite negative top topExponent, .finite _ bottom bottomExponent =>
    if bottom = 0 then notANumber
    else
      let common := min topExponent bottomExponent
      ofBinary negative
        (top * Nat.pow 2 (topExponent - common).toNat %
          (bottom * Nat.pow 2 (bottomExponent - common).toNat))
        common
  | .finite .., .infinite _ => dividend
  | _, _ => notANumber

/-- How many 32-bit integers there are. -/
def wordCount : Float := ofNat (Nat.pow 2 32)

/-- The 32-bit two's complement integer of a double: what the integer part leaves when it is
divided, brought up to zero or above and taken for an unsigned integer first. An infinity and no
number have 0. -/
def toInt32 (value : Float) : Int32 :=
  if value.isNaN || value.isInf then 0
  else
    let rest := remainder (integral value) wordCount
    let natural := if rest < 0 then rest + wordCount else rest
    natural.toUInt32.toInt32

end ScriptEngine.Number
