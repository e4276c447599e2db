/-
This file holds the narrower binary formats of numbers. A format splits a pattern into a
sign, an exponent field and a fraction; every number it has is also a double, so widening is
exact, and a double has a pattern in a format just when nothing of it would be lost.
-/

import ScriptEngine.Number.Exact

namespace ScriptEngine.Number

/-- The field widths of a binary format, behind its sign bit. -/
structure BinaryFormat where
  exponentWidth : Nat
  fractionWidth : Nat
  deriving DecidableEq, Repr

namespace BinaryFormat

/-- Sixteen bits. -/
def half : BinaryFormat := ⟨5, 10⟩

/-- Thirty-two bits. -/
def single : BinaryFormat := ⟨8, 23⟩

/-- Sixty-four bits. -/
def double : BinaryFormat := ⟨11, 52⟩

/-- The greatest exponent of a finite number. -/
def greatestExponent (format : BinaryFormat) : Int :=
  Nat.pow 2 (format.exponentWidth - 1) - 1

/-- The exponent of the last place of the least numbers. -/
def leastUnit (format : BinaryFormat) : Int :=
  1 - format.greatestExponent - format.fractionWidth

/-- The exponent field of infinities and of no number. -/
def specialField (format : BinaryFormat) : Nat :=
  Nat.pow 2 format.exponentWidth - 1

/-- The sign bit. -/
def signBit (format : BinaryFormat) : Nat :=
  Nat.pow 2 (format.exponentWidth + format.fractionWidth)

/-- The number that a pattern encodes. -/
def value (format : BinaryFormat) (bits : Nat) : Float :=
  let negative := bits / format.signBit % 2 == 1
  let field := bits / Nat.pow 2 format.fractionWidth % Nat.pow 2 format.exponentWidth
  let fraction := bits % Nat.pow 2 format.fractionWidth
  if field = format.specialField then
    if fraction = 0 then infinity negative else notANumber
  else if field = 0 then ofBinary negative fraction format.leastUnit
  else ofBinary negative (Nat.pow 2 format.fractionWidth + fraction) (format.leastUnit + field - 1)

/-- The pattern of a magnitude, unless the format has no such number. The leading bit of a
significand adds itself to the exponent field. -/
def magnitudeBits? (format : BinaryFormat) (significand : Nat) (exponent : Int) : Option Nat :=
  let leading := significand.log2 + exponent
  let unit := max (leading - format.fractionWidth) format.leastUnit
  if significand = 0 then some 0
  else if format.greatestExponent < leading then none
  else if significand % Nat.pow 2 (unit - exponent).toNat = 0 then
    some ((unit - format.leastUnit).toNat * Nat.pow 2 format.fractionWidth +
      significand / Nat.pow 2 (unit - exponent).toNat * Nat.pow 2 (exponent - unit).toNat)
  else none

/-- The pattern of a number, unless the format has no such number. No number has one pattern,
whose fraction is its highest bit. -/
def bits? (format : BinaryFormat) (number : Float) : Option Nat :=
  let special := format.specialField * Nat.pow 2 format.fractionWidth
  match exact number with
  | .notANumber => some (special + Nat.pow 2 (format.fractionWidth - 1))
  | .infinite negative => some (if negative then format.signBit + special else special)
  | .finite negative significand exponent =>
    (format.magnitudeBits? significand exponent).map fun magnitude =>
      if negative then format.signBit + magnitude else magnitude

/-! ### Rounding -/

/-- The pattern of the number of a format nearest to a magnitude; beyond the greatest one it is the
pattern of infinity. -/
def nearestMagnitude (format : BinaryFormat) (significand : Nat) (exponent : Int) : Nat :=
  let unit := max (significand.log2 + exponent - format.fractionWidth) format.leastUnit
  min ((unit - format.leastUnit).toNat * Nat.pow 2 format.fractionWidth +
      roundHalfEven (significand * Nat.pow 2 (exponent - unit).toNat)
        (Nat.pow 2 (unit - exponent).toNat))
    (format.specialField * Nat.pow 2 format.fractionWidth)

/-- The number of a format nearest to a number. -/
def nearest (format : BinaryFormat) (number : Float) : Float :=
  match exact number with
  | .finite negative significand exponent =>
    let magnitude := if significand = 0 then 0 else format.nearestMagnitude significand exponent
    format.value (if negative then format.signBit + magnitude else magnitude)
  | _ => number

end BinaryFormat

end ScriptEngine.Number
