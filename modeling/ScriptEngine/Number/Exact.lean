/-
This file relates a double to the rational number it stands for. A finite double is a signed
significand times a power of two; in the other direction every non-negative ratio has a
nearest double, ties going to the even significand. Both directions are plain arithmetic on
the bit pattern, so that nothing here depends on how the hardware computes.
-/

namespace ScriptEngine.Number

/-- The exact value of a double. A finite one is `significand * 2 ^ exponent` with its sign. -/
inductive Exact where
  | notANumber
  | infinite (negative : Bool)
  | finite (negative : Bool) (significand : Nat) (exponent : Int)
  deriving DecidableEq, Repr

/-- The exact value a 64-bit pattern encodes. -/
def Exact.ofBits (bits : Nat) : Exact :=
  let negative := bits / Nat.pow 2 63 % 2 == 1
  let biased : Nat := bits / Nat.pow 2 52 % Nat.pow 2 11
  let fraction : Nat := bits % Nat.pow 2 52
  if biased = 2047 then
    if fraction = 0 then .infinite negative else .notANumber
  else if biased = 0 then .finite negative fraction (-1074)
  else .finite negative (Nat.pow 2 52 + fraction) ((biased : Int) - 1075)

/-- The exact value of a double. -/
def exact (value : Float) : Exact :=
  Exact.ofBits value.toBits.toNat

/-! ### Rounding to the nearest double -/

/-- The natural number nearest to a ratio; halfway between two, the even one. -/
def roundHalfEven (numerator denominator : Nat) : Nat :=
  let quotient := numerator / denominator
  let remainder := numerator % denominator
  if denominator < 2 * remainder ∨ (denominator = 2 * remainder ∧ quotient % 2 = 1) then
    quotient + 1
  else
    quotient

/-- The exponent of the highest power of two that a positive ratio reaches. -/
def binaryExponent (numerator denominator : Nat) : Int :=
  let guess : Int := (numerator.log2 : Int) - denominator.log2
  if denominator * Nat.pow 2 guess.toNat ≤ numerator * Nat.pow 2 (-guess).toNat then guess
  else guess - 1

/-- The significand of a positive ratio in units of `2 ^ exponent`, rounded. -/
def significandAt (numerator denominator : Nat) (exponent : Int) : Nat :=
  roundHalfEven (numerator * Nat.pow 2 (-exponent).toNat) (denominator * Nat.pow 2 exponent.toNat)

/-- The bit pattern of the double nearest to a positive ratio. A significand that rounds up to
`2 ^ 53` carries into the exponent field by itself, and a ratio beyond the largest double gives
the pattern of infinity. -/
def nearestBits (numerator denominator : Nat) : Nat :=
  let exponent := max (binaryExponent numerator denominator - 52) (-1074)
  min ((exponent + 1074).toNat * Nat.pow 2 52 + significandAt numerator denominator exponent)
    (2047 * Nat.pow 2 52)

/-- The double nearest to a ratio with a sign. -/
def ofRatio (negative : Bool) (numerator denominator : Nat) : Float :=
  let magnitude := if numerator = 0 then 0 else nearestBits numerator denominator
  Float.ofBits (if negative then magnitude + Nat.pow 2 63 else magnitude).toUInt64

/-- The double nearest to a natural number. -/
def ofNat (value : Nat) : Float := ofRatio false value 1

/-- The double nearest to `significand * 2 ^ exponent` with a sign. -/
def ofBinary (negative : Bool) (significand : Nat) (exponent : Int) : Float :=
  ofRatio negative (significand * Nat.pow 2 exponent.toNat) (Nat.pow 2 (-exponent).toNat)

/-! ### Special values -/

/-- The double that is not a number. -/
def notANumber : Float := Float.ofBits 0x7FF8000000000000

/-- The infinity of a sign. -/
def infinity (negative : Bool) : Float :=
  Float.ofBits (if negative then 0xFFF0000000000000 else 0x7FF0000000000000)

/-- The number 1 for true and 0 for false. -/
def ofBool (truth : Bool) : Float :=
  if truth then 1 else 0

end ScriptEngine.Number
