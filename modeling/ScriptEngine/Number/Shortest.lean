/-
This file finds the shortest decimal that reads back as a given double. Grids of powers of
ten are tried from the coarsest to the finest; on each grid only the two neighbours of the
value can read back, and the first grid with a hit gives the fewest digits. The test is
reading itself, so whatever is found reads back.
-/

import ScriptEngine.Number.Decimal

namespace ScriptEngine.Number

/-- The neighbours of a ratio on the grid of multiples of `10 ^ exponent`: the multiple at or
below it, and whether the ratio lies above, at or below the middle of the way to the next. -/
def gridFloor (numerator denominator : Nat) (exponent : Int) : Nat × Ordering :=
  let top := numerator * Nat.pow 10 (-exponent).toNat
  let bottom := denominator * Nat.pow 10 exponent.toNat
  (top / bottom, compare (2 * (top % bottom)) bottom)

/-- Whether a multiple of `10 ^ exponent` reads as the given magnitude. -/
def readsAs (magnitude : Float) (digits : Nat) (exponent : Int) : Bool :=
  (Decimal.toFloat ⟨false, digits, exponent⟩).toBits == magnitude.toBits

/-- The neighbour on a grid that reads back: of two the nearer one, halfway the even one. -/
def onGrid? (magnitude : Float) (numerator denominator : Nat) (exponent : Int) : Option Nat :=
  let (below, side) := gridFloor numerator denominator exponent
  let down := readsAs magnitude below exponent
  let up := readsAs magnitude (below + 1) exponent
  match down, up, side with
  | true, true, .lt => some below
  | true, true, .gt => some (below + 1)
  | true, true, .eq => some (if below % 2 = 0 then below else below + 1)
  | true, false, _ => some below
  | false, true, _ => some (below + 1)
  | false, false, _ => none

/-- The first hit among `count` grids, from `10 ^ exponent` downward. -/
def coarsest? (magnitude : Float) (numerator denominator : Nat) :
    (count : Nat) → (exponent : Int) → Option (Nat × Int)
  | 0, _ => none
  | count + 1, exponent =>
    match onGrid? magnitude numerator denominator exponent with
    | some digits => some (digits, exponent)
    | none => coarsest? magnitude numerator denominator count (exponent - 1)

/-- All the decimal digits of `significand * 2 ^ exponent`: half of a unit is five tenths of
it. -/
def exactDecimal (significand : Nat) (exponent : Int) : Nat × Int :=
  (significand * Nat.pow 2 exponent.toNat * Nat.pow 5 (-exponent).toNat, min exponent 0)

/-- The digits and the power of ten of the shortest decimal that reads as a positive magnitude
`significand * 2 ^ exponent`. The search starts above the highest decimal place of the value and
covers the 17 places that always suffice. -/
def shortest (significand : Nat) (exponent : Int) : Nat × Int :=
  let numerator := significand * Nat.pow 2 exponent.toNat
  let denominator := Nat.pow 2 (-exponent).toNat
  let start := (exponent + significand.log2 + 1) * 30103 / 100000 + 2
  match coarsest? (ofRatio false numerator denominator) numerator denominator 22 start with
  | some found => found
  | none => exactDecimal significand exponent

end ScriptEngine.Number
