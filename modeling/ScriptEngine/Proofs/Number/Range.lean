/-
This file is about the range of doubles. The nearest double of a ratio is an infinity just when the
ratio is at least halfway from the greatest double to the power of two above it, and a zero just
when the ratio is at most half of the least double; the sign is the one that was asked for, and
what is not a number is never the nearest double of anything.
-/

import Mathlib
import ScriptEngine.Proofs.Number.Shortest

namespace ScriptEngine.Number

/-- The zero of a sign. -/
def zero (negative : Bool) : Float :=
  ofRatio negative 0 1

/-- The least ratio whose nearest double is an infinity. -/
def overflow : ℚ := 2 ^ 1024 - 2 ^ 970

/-- The greatest ratio whose nearest double is a zero. -/
def underflow : ℚ := 2 ^ (-1075 : ℤ)

/-! ### Rounding -/

/-- `roundHalfEven` reaches a number just when the ratio is more than halfway from the number before
it, or halfway if the number is even. -/
theorem le_roundHalfEven_iff {numerator denominator least : ℕ} (positive : 0 < denominator)
    (leastPos : 0 < least) :
    least ≤ roundHalfEven numerator denominator ↔
      (2 * least - 1) * denominator < 2 * numerator ∨
        (2 * least - 1) * denominator = 2 * numerator ∧ least % 2 = 0 := by
  have split := Nat.div_add_mod' numerator denominator
  have small := Nat.mod_lt numerator positive
  unfold roundHalfEven
  generalize numerator / denominator = quotient at split ⊢
  generalize numerator % denominator = remainder at split small ⊢
  dsimp only
  obtain ⟨before, rfl⟩ := Nat.exists_eq_succ_of_ne_zero leastPos.ne'
  have odd : (2 * (before + 1) - 1) * denominator = 2 * (before * denominator) + denominator := by
    rw [show 2 * (before + 1) - 1 = 2 * before + 1 by omega]
    ring
  rw [Nat.succ_eq_add_one, odd, ← split]
  rcases Nat.lt_trichotomy quotient before with less | rfl | more
  · have reach : (quotient + 1) * denominator ≤ before * denominator :=
      Nat.mul_le_mul_right _ less
    rw [Nat.add_mul, Nat.one_mul] at reach
    generalize before * denominator = goal at reach ⊢
    generalize quotient * denominator = floor at reach ⊢
    split <;> omega
  · generalize quotient * denominator = floor
    split <;> omega
  · have reach : (before + 1) * denominator ≤ quotient * denominator :=
      Nat.mul_le_mul_right _ more
    rw [Nat.add_mul, Nat.one_mul] at reach
    generalize before * denominator = goal at reach ⊢
    generalize quotient * denominator = floor at reach ⊢
    split <;> omega

/-- Twice a ratio against an odd number of units, as it is written with natural numbers. -/
theorem odd_units_le_iff (numerator : ℕ) {denominator least : ℕ} (positive : 0 < denominator)
    (leastPos : 0 < least) (exponent : ℤ) :
    ((2 * least - 1) * (denominator * 2 ^ exponent.toNat) <
        2 * (numerator * 2 ^ (-exponent).toNat) ↔
      ((least : ℚ) - 1 / 2) * 2 ^ exponent < numerator / denominator) ∧
    ((2 * least - 1) * (denominator * 2 ^ exponent.toNat) =
        2 * (numerator * 2 ^ (-exponent).toNat) ↔
      ((least : ℚ) - 1 / 2) * 2 ^ exponent = numerator / denominator) := by
  have denominatorPos : (0 : ℚ) < denominator := by exact_mod_cast positive
  have units : (((2 * least - 1 : ℕ) : ℚ)) = 2 * least - 1 := by
    rw [Nat.cast_sub (by omega)]
    push_cast
    ring
  have scaled : (((2 * least - 1) * (denominator * 2 ^ exponent.toNat) : ℕ) : ℚ) =
      ((least : ℚ) - 1 / 2) * 2 ^ exponent * (2 * denominator * (2 ^ (-exponent).toNat : ℕ)) := by
    rw [two_zpow, Nat.cast_mul, units]
    push_cast
    field_simp
  have other : ((2 * (numerator * 2 ^ (-exponent).toNat) : ℕ) : ℚ) =
      numerator / denominator * (2 * denominator * (2 ^ (-exponent).toNat : ℕ)) := by
    push_cast
    field_simp
  have factor : (0 : ℚ) < 2 * denominator * (2 ^ (-exponent).toNat : ℕ) := by positivity
  constructor
  · rw [← Nat.cast_lt (α := ℚ), scaled, other]
    exact mul_lt_mul_iff_left₀ factor
  · rw [← Nat.cast_inj (R := ℚ), scaled, other]
    exact mul_left_inj' factor.ne'

/-- When the `significandAt` an exponent reaches a number. -/
theorem le_significandAt_iff (numerator : ℕ) {denominator least : ℕ} (positive : 0 < denominator)
    (leastPos : 0 < least) (exponent : ℤ) :
    least ≤ significandAt numerator denominator exponent ↔
      ((least : ℚ) - 1 / 2) * 2 ^ exponent < numerator / denominator ∨
        ((least : ℚ) - 1 / 2) * 2 ^ exponent = numerator / denominator ∧ least % 2 = 0 := by
  obtain ⟨above, halfway⟩ := odd_units_le_iff numerator positive leastPos exponent
  unfold significandAt
  simp only [Nat.pow_eq]
  rw [le_roundHalfEven_iff (by positivity) leastPos, above, halfway]

/-! ### The greatest and the least doubles -/

theorem overflow_eq : overflow = (((2 ^ 53 : ℕ) : ℚ) - 1 / 2) * 2 ^ (971 : ℤ) := by
  have whole : (2 : ℚ) ^ (1024 : ℕ) = 2 ^ 53 * 2 ^ (971 : ℕ) := by rw [← pow_add]
  have half : (2 : ℚ) ^ (971 : ℕ) = 2 * 2 ^ (970 : ℕ) := by rw [← pow_succ']
  have power : (2 : ℚ) ^ (971 : ℤ) = 2 ^ (971 : ℕ) := zpow_ofNat 2 971
  unfold overflow
  rw [power, whole, half]
  generalize (2 : ℚ) ^ (970 : ℕ) = unit
  push_cast
  ring

theorem overflow_bounds : (2 : ℚ) ^ (1023 : ℤ) ≤ overflow ∧ overflow ≤ (2 : ℚ) ^ (1024 : ℤ) := by
  rw [overflow_eq]
  constructor
  · rw [show (1023 : ℤ) = 52 + 971 by norm_num, zpow_add₀ two_ne_zero]
    gcongr
    norm_num
  · rw [show (1024 : ℤ) = 53 + 971 by norm_num, zpow_add₀ two_ne_zero]
    gcongr
    norm_num

section Significand

variable {numerator denominator : ℕ} {unit : ℤ}

/-- A ratio with 53 bits in front of its unit has a `significandAt` it that rounding makes hardly
longer. -/
theorem significandAt_lt (positive : 0 < denominator)
    (below : (numerator / denominator : ℚ) < 2 ^ (53 + unit)) :
    significandAt numerator denominator unit < 2 ^ 53 + 2 := by
  rw [← not_le, le_significandAt_iff numerator positive (by norm_num)]
  rw [zpow_add₀ two_ne_zero] at below
  generalize (numerator / denominator : ℚ) = ratio at below ⊢
  have unitPos : (0 : ℚ) < 2 ^ unit := by positivity
  push_cast
  norm_num at below ⊢
  constructor
  · nlinarith
  · intro same
    nlinarith

/-- A ratio with more than 52 bits in front of a unit has as many in its `significandAt` it. -/
theorem le_significandAt (positive : 0 < denominator)
    (reached : (2 : ℚ) ^ (52 + unit) ≤ numerator / denominator) :
    2 ^ 52 ≤ significandAt numerator denominator unit := by
  refine (le_significandAt_iff numerator positive (by norm_num) _).mpr
    (.inl (lt_of_lt_of_le ?_ reached))
  rw [zpow_add₀ two_ne_zero]
  gcongr
  norm_num

/-- The greatest significand is exceeded at the greatest unit from `overflow` on. -/
theorem le_significandAt_greatest (positive : 0 < denominator) :
    2 ^ 53 ≤ significandAt numerator denominator 971 ↔
      overflow ≤ (numerator / denominator : ℚ) := by
  rw [le_significandAt_iff numerator positive (by norm_num), overflow_eq, le_iff_lt_or_eq]
  norm_num

end Significand

/-- A ratio is rounded by `nearestBits` to those of an infinity from halfway above the greatest
double, at `overflow`, on. -/
theorem nearestBits_eq_iff {numerator denominator : ℕ} (numeratorPos : 0 < numerator)
    (denominatorPos : 0 < denominator) :
    nearestBits numerator denominator = 2047 * 2 ^ 52 ↔
      overflow ≤ (numerator / denominator : ℚ) := by
  obtain ⟨reached, missed⟩ := binaryExponent_bounds numeratorPos denominatorPos
  obtain ⟨overflowAbove, overflowBelow⟩ := overflow_bounds
  unfold nearestBits
  simp only [Nat.pow_eq]
  generalize binaryExponent numerator denominator = leading at reached missed ⊢
  rw [min_eq_right_iff]
  rcases lt_trichotomy leading 1023 with low | rfl | high
  · -- The greatest exponent is not reached, whatever the rounding.
    generalize isUnit : max (leading - 52) (-1074) = unit
    have few := significandAt_lt denominatorPos
      (missed.trans_le (zpow_le_zpow_right₀ one_le_two (show leading + 1 ≤ 53 + unit by omega)))
    have small : (numerator / denominator : ℚ) < 2 ^ (1023 : ℤ) :=
      missed.trans_le (zpow_le_zpow_right₀ one_le_two (by omega))
    refine iff_of_false ?_ (not_le.mpr (small.trans_le overflowAbove))
    norm_num at few ⊢
    omega
  · have unit : max ((1023 : ℤ) - 52) (-1074) = 971 := by norm_num
    rw [unit, ← le_significandAt_greatest denominatorPos]
    norm_num
    omega
  · generalize isUnit : max (leading - 52) (-1074) = unit
    have full := le_significandAt denominatorPos
      (show (2 : ℚ) ^ (52 + unit) ≤ numerator / denominator by
        rwa [show 52 + unit = leading by omega])
    have large : (2 : ℚ) ^ (1024 : ℤ) ≤ numerator / denominator :=
      (zpow_le_zpow_right₀ one_le_two (by omega)).trans reached
    refine iff_of_true ?_ (overflowBelow.trans large)
    norm_num at full ⊢
    omega

/-- A ratio is rounded by `nearestBits` to no bits at all up to half of the least double,
`underflow`. -/
theorem nearestBits_eq_zero_iff {numerator denominator : ℕ} (numeratorPos : 0 < numerator)
    (denominatorPos : 0 < denominator) :
    nearestBits numerator denominator = 0 ↔ (numerator / denominator : ℚ) ≤ underflow := by
  obtain ⟨reached, missed⟩ := binaryExponent_bounds numeratorPos denominatorPos
  have reaches := fun (least : ℕ) (leastPos : 0 < least) exponent =>
    le_significandAt_iff numerator denominatorPos leastPos exponent
  have half : underflow = (((1 : ℕ) : ℚ) - 1 / 2) * 2 ^ (-1074 : ℤ) := by
    unfold underflow
    rw [show (-1075 : ℤ) = -1 + -1074 by norm_num, zpow_add₀ two_ne_zero]
    norm_num
  unfold nearestBits
  simp only [Nat.pow_eq]
  generalize binaryExponent numerator denominator = leading at reached missed ⊢
  generalize (numerator / denominator : ℚ) = ratio at reached missed reaches ⊢
  rcases le_or_gt leading (-1022) with low | high
  · have unit : max (leading - 52) (-1074) = -1074 := by omega
    have least := reaches 1 Nat.one_pos (-1074)
    rw [unit, half]
    constructor
    · intro none
      by_contra above
      have some := least.mpr (.inl (not_le.mp above))
      norm_num at none
      omega
    · intro below
      have none : ¬ 1 ≤ significandAt numerator denominator (-1074) := by
        rw [least]
        rintro (above | ⟨-, odd⟩)
        · exact absurd below (not_le.mpr above)
        · norm_num at odd
      norm_num
      omega
  · generalize isUnit : max (leading - 52) (-1074) = unit
    have more : 0 < (unit + 1074).toNat := by omega
    have large : underflow < ratio := by
      refine lt_of_lt_of_le ?_ reached
      exact zpow_lt_zpow_right₀ one_lt_two (by omega)
    refine iff_of_false ?_ (not_le.mpr large)
    norm_num
    omega

/-! ### Nearest doubles out of range -/

theorem toBits_infinity (negative : Bool) :
    (infinity negative).toBits.toNat = 2047 * 2 ^ 52 + if negative then 2 ^ 63 else 0 := by
  cases negative <;> rfl

theorem toBits_notANumber : notANumber.toBits.toNat = 2047 * 2 ^ 52 + 2 ^ 51 := rfl

/-- The nearest double of a ratio, `ofRatio`, is an infinity just when the ratio is out of range. -/
theorem ofRatio_eq_infinity_iff {numerator denominator : ℕ} (positive : 0 < denominator)
    (negative : Bool) :
    ofRatio negative numerator denominator = infinity negative ↔
      overflow ≤ (numerator / denominator : ℚ) := by
  rw [← Float.toBits_inj, ← UInt64.toNat_inj, toBits_ofRatio, toBits_infinity,
    Nat.add_right_cancel_iff]
  split
  · case isTrue none =>
    have above : (0 : ℚ) < overflow := by
      rw [overflow_eq]
      norm_num
    refine iff_of_false (by norm_num) (not_le.mpr ?_)
    rwa [none, Nat.cast_zero, zero_div]
  · case isFalse some => exact nearestBits_eq_iff (Nat.pos_of_ne_zero some) positive

/-- The nearest double of a ratio, `ofRatio`, is a zero just when the ratio is too small for any
other. -/
theorem ofRatio_eq_zero_iff {numerator denominator : ℕ} (positive : 0 < denominator)
    (negative : Bool) :
    ofRatio negative numerator denominator = zero negative ↔
      (numerator / denominator : ℚ) ≤ underflow := by
  unfold zero
  rw [← Float.toBits_inj, ← UInt64.toNat_inj, toBits_ofRatio, toBits_ofRatio,
    Nat.add_right_cancel_iff, if_pos rfl]
  split
  · case isTrue none =>
    refine iff_of_true rfl ?_
    rw [none, Nat.cast_zero, zero_div]
    unfold underflow
    positivity
  · case isFalse some => exact nearestBits_eq_zero_iff (Nat.pos_of_ne_zero some) positive

/-- No ratio is rounded to what is not a number. -/
theorem ofRatio_ne_notANumber (negative : Bool) (numerator denominator : ℕ) :
    ofRatio negative numerator denominator ≠ notANumber := by
  intro same
  have bits := congrArg (fun value => value.toBits.toNat) same
  have bound := magnitude_le numerator denominator
  rw [toBits_ofRatio, toBits_notANumber] at bits
  generalize (if numerator = 0 then 0 else nearestBits numerator denominator) = magnitude
    at bits bound
  split at bits <;> omega

theorem infinity_ne_notANumber (negative : Bool) : infinity negative ≠ notANumber := by
  intro same
  have bits := toBits_infinity negative
  rw [same, toBits_notANumber] at bits
  split at bits <;> omega

end ScriptEngine.Number
