/-
This file works out the 32-bit integer of a double. The integer part is exact, and so is what it
leaves when it is divided by the number of words, for both fit a significand or are the double
itself. A negative rest is brought up by one exact sum, and what is converted is below the number of
words. All in all the double has the word that its integer part wraps around to.
-/

import Mathlib
import ScriptEngine.Proofs.Number.Addition

namespace ScriptEngine.Number

variable {value : Float} {negative : Bool} {significand magnitude : ℕ} {exponent : ℤ}

/-! ### Integers as doubles -/

theorem ofBinary_zero (negative : Bool) (magnitude : ℕ) :
    ofBinary negative magnitude 0 = ofRatio negative magnitude 1 := by
  have whole : magnitude * Nat.pow 2 (0 : ℤ).toNat = magnitude := Nat.mul_one magnitude
  unfold ofBinary
  rw [whole]
  rfl

/-- The sign in front of a double changes nothing else of its exact value. -/
theorem exact_ofRatio_sign {numerator denominator significand : ℕ} {exponent : ℤ}
    (finite : exact (ofRatio false numerator denominator) = .finite false significand exponent)
    (negative : Bool) :
    exact (ofRatio negative numerator denominator) = .finite negative significand exponent := by
  cases negative with
  | false => exact finite
  | true =>
    have bound := magnitude_le numerator denominator
    unfold exact at finite ⊢
    rw [toBits_ofRatio] at finite ⊢
    generalize (if numerator = 0 then 0 else nearestBits numerator denominator) = magnitude at *
    have field : (magnitude + 2 ^ 63) / 2 ^ 52 % 2 ^ 11 = magnitude / 2 ^ 52 % 2 ^ 11 := by omega
    have fraction : (magnitude + 2 ^ 63) % 2 ^ 52 = magnitude % 2 ^ 52 := by omega
    have sign : ((magnitude + 2 ^ 63) / 2 ^ 63 % 2 == 1) = true := by
      rw [beq_iff_eq]
      omega
    unfold Exact.ofBits at finite ⊢
    simp only [Nat.pow_eq, Bool.false_eq_true, if_false, if_true, add_zero, field, fraction,
      sign] at finite ⊢
    split at finite
    · split at finite <;> cases finite
    · case isFalse ordinary =>
      rw [if_neg ordinary]
      split at finite
      · case isTrue least =>
        obtain ⟨-, rfl, rfl⟩ := Exact.finite.inj finite
        exact if_pos least
      · case isFalse normal =>
        obtain ⟨-, rfl, rfl⟩ := Exact.finite.inj finite
        exact if_neg normal

/-- An integer that fits a significand is a double exactly. -/
theorem exists_exact_integer (negative : Bool) {magnitude : ℕ} (small : magnitude < 2 ^ 53) :
    ∃ (significand : ℕ) (exponent : ℤ),
      exact (ofRatio negative magnitude 1) = .finite negative significand exponent ∧
      (significand : ℚ) * 2 ^ exponent = magnitude := by
  rcases Nat.eq_zero_or_pos magnitude with rfl | positive
  · refine ⟨0, -1074, exact_ofRatio_sign exact_ofNat_zero negative, ?_⟩
    rw [Nat.cast_zero, zero_mul]
  · obtain ⟨significand, exponent, isExact, same⟩ := exists_exact_ofNat positive small
    exact ⟨significand, exponent, exact_ofRatio_sign isExact negative, same⟩

/-- `integerPart` is the magnitude without its fraction. -/
theorem integerPart_eq (significand : ℕ) (exponent : ℤ) :
    integerPart significand exponent = ⌊(significand : ℚ) * 2 ^ exponent⌋₊ := by
  unfold integerPart
  simp only [Nat.pow_eq]
  rw [← binary_eq_ratio, Nat.floor_div_eq_div]

/-! ### Truncating -/

/-- The integer part of a double has its sign and is exact. -/
theorem exact_integral {value : Float} {negative : Bool} {significand : ℕ} {exponent : ℤ}
    (finite : exact value = .finite negative significand exponent) :
    ∃ (digits : ℕ) (place : ℤ), exact (integral value) = .finite negative digits place ∧
      (digits : ℚ) * 2 ^ place = integerPart significand exponent := by
  unfold integral
  rw [finite]
  dsimp only
  rcases le_or_gt 0 exponent with above | below
  · have whole : (integerPart significand exponent : ℚ) = significand * 2 ^ exponent := by
      obtain ⟨count, rfl⟩ := Int.eq_ofNat_of_zero_le above
      rw [integerPart_eq, zpow_natCast]
      have natural : (significand : ℚ) * 2 ^ count = (significand * 2 ^ count : ℕ) := by
        push_cast
        rfl
      rw [natural, Nat.floor_natCast]
    refine ⟨significand, exponent, ?_, whole.symm⟩
    rw [ofBinary_of_eq finite (by rw [whole, zpow_zero, mul_one])]
    exact finite
  · rw [ofBinary_zero]
    refine exists_exact_integer negative ?_
    have shape := (bits_of_exact finite).2
    have none : exponent.toNat = 0 := Int.toNat_of_nonpos below.le
    have atMost : integerPart significand exponent ≤ significand := by
      unfold integerPart
      rw [none]
      exact (Nat.div_le_self ..).trans (Nat.mul_one significand).le
    omega

/-! ### Dividing by the number of words -/

theorem exact_wordCount : exact wordCount = .finite false (2 ^ 52) (-20) := rfl

/-- What an integer leaves when it is divided by the number of words. -/
theorem remainder_wordCount {value : Float} {negative : Bool} {digits magnitude : ℕ} {place : ℤ}
    (finite : exact value = .finite negative digits place)
    (same : (digits : ℚ) * 2 ^ place = magnitude) :
    remainder value wordCount = ofRatio negative (magnitude % 2 ^ 32) 1 := by
  unfold remainder
  rw [finite, exact_wordCount]
  dsimp only
  rw [if_neg (by norm_num)]
  obtain ⟨count, isCount⟩ : ∃ count : ℕ, min place (-20) = -(count : ℤ) :=
    ⟨(-min place (-20)).toNat, by omega⟩
  have top : digits * 2 ^ (place + count).toNat = magnitude * 2 ^ count := by
    have units : (digits : ℚ) * 2 ^ (place + count) = magnitude * 2 ^ count := by
      rw [zpow_add₀ two_ne_zero, zpow_natCast, ← mul_assoc, same]
    rw [← Int.toNat_of_nonneg (show 0 ≤ place + count by omega), zpow_natCast] at units
    exact_mod_cast units
  have bottom : 2 ^ 52 * 2 ^ (-20 + (count : ℤ)).toNat = 2 ^ 32 * 2 ^ count := by
    obtain ⟨more, rfl⟩ := Nat.exists_eq_add_of_le (show 20 ≤ count by omega)
    rw [show (-20 + ((20 + more : ℕ) : ℤ)).toNat = more by omega, pow_add 2 20]
    ring
  simp only [Nat.pow_eq]
  rw [isCount, sub_neg_eq_add, sub_neg_eq_add, top, bottom, Nat.mul_mod_mul_right]
  unfold ofBinary
  refine ofRatio_congr (Nat.pow_pos two_pos) Nat.one_pos ?_ negative
  have none : (-(count : ℤ)).toNat = 0 := Int.toNat_of_nonpos (by omega)
  have all : (- -(count : ℤ)).toNat = count := by rw [neg_neg, Int.toNat_natCast]
  rw [none, all]
  simp only [Nat.pow_eq, pow_zero, mul_one]

/-! ### Words -/

/-- Integers that are congruent wrap around to the same word in `toInt32`. -/
theorem toInt32_ofNat_eq {natural : ℕ} {integer : ℤ}
    (same : (natural : ℤ) ≡ integer [ZMOD 2 ^ 32]) :
    (UInt32.ofNat natural).toInt32 = Int32.ofInt integer := by
  have signed : (UInt32.ofNat natural).toInt32 = Int32.ofInt natural := by
    rw [Int32.ofInt_eq_ofNat]
    rfl
  rw [signed, ← Int32.toInt_inj, Int32.toInt_ofInt, Int32.toInt_ofInt, ← Int.emod_bmod,
    ← Int.emod_bmod integer]
  exact congrArg (fun rest => Int.bmod rest Int32.size) same

/-- A finite double has by `toInt32` the word of its `integerPart`. -/
theorem toInt32_finite {value : Float} {negative : Bool} {significand : ℕ} {exponent : ℤ}
    (finite : exact value = .finite negative significand exponent) :
    toInt32 value = Int32.ofInt (signed negative (integerPart significand exponent)) := by
  obtain ⟨digits, place, isIntegral, whole⟩ := exact_integral finite
  generalize integerPart significand exponent = magnitude at whole
  have rest := remainder_wordCount isIntegral whole
  have small : magnitude % 2 ^ 32 < 2 ^ 32 := Nat.mod_lt _ (by norm_num)
  have divided := Nat.mod_add_div magnitude (2 ^ 32)
  generalize magnitude % 2 ^ 32 = left at rest small divided
  obtain ⟨leftDigits, leftPlace, isLeft, leftWhole⟩ :=
    exists_exact_integer negative (small.trans (by norm_num))
  have leftPos := pos_iff_of_eq leftWhole
  have isBelow := lt_zero_iff isLeft
  unfold toInt32
  rw [isNaN_eq_false finite, isInf_eq_false finite]
  dsimp only
  rw [if_neg (by decide), rest]
  split
  · case isTrue below =>
    obtain ⟨rfl, some⟩ := isBelow.mp below
    obtain ⟨missing, isMissing⟩ := Nat.exists_eq_add_of_le small.le
    obtain ⟨sumDigits, sumPlace, isSum, sumWhole⟩ :=
      exists_exact_integer false (show missing < 2 ^ 53 by omega)
    have sum : ofRatio true left 1 + wordCount = ofRatio false missing 1 := by
      refine add_exact isLeft some exact_wordCount (by norm_num) isSum
        ((pos_iff_of_eq sumWhole).mpr (by omega)) ?_
      have total : (2 : ℚ) ^ 32 = left + missing := by exact_mod_cast isMissing
      have words : (((2 ^ 52 : ℕ) : ℤ) : ℚ) * 2 ^ (-20 : ℤ) = 2 ^ 32 := by norm_num
      simp only [signed, if_true, Bool.false_eq_true, if_false, words, total]
      rw [Int.cast_neg, Int.cast_natCast, Int.cast_natCast, neg_mul, leftWhole, sumWhole]
      ring
    rw [sum, toUInt32_exact isSum sumWhole (.inl rfl) (by omega)]
    refine toInt32_ofNat_eq (Int.modEq_iff_dvd.mpr ⟨-(magnitude / 2 ^ 32 : ℕ) - 1, ?_⟩)
    simp only [signed, if_true]
    omega
  · case isFalse above =>
    rw [isBelow, leftPos, not_and_or] at above
    have sign : negative = false ∨ left = 0 :=
      above.imp Bool.eq_false_of_not_eq_true Nat.eq_zero_of_not_pos
    rw [toUInt32_exact isLeft leftWhole sign small]
    rcases sign with rfl | rfl
    · refine toInt32_ofNat_eq (Int.modEq_iff_dvd.mpr ⟨(magnitude / 2 ^ 32 : ℕ), ?_⟩)
      simp only [signed, Bool.false_eq_true, if_false]
      omega
    · refine toInt32_ofNat_eq (Int.modEq_iff_dvd.mpr
        ⟨signed negative (magnitude / 2 ^ 32), ?_⟩)
      cases negative <;> simp only [signed, if_true, Bool.false_eq_true, if_false] <;> omega

theorem toInt32_special (special : value.isNaN = true ∨ value.isInf = true) :
    toInt32 value = 0 := by
  unfold toInt32
  exact if_pos ((Bool.or_eq_true ..).mpr special)

end ScriptEngine.Number
