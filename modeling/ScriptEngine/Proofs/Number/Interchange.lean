/-
This file is about numbers in narrower formats. A number that has a pattern in a format is the
number that the pattern encodes, so that writing a number in the narrowest format that has it
loses nothing.
-/

import Mathlib
import ScriptEngine.Number.Interchange
import ScriptEngine.Proofs.Number.Nearest

namespace ScriptEngine.Number.BinaryFormat

variable {format : BinaryFormat}

/-! ### Fields of a pattern -/

/-- The pattern with a sign, an exponent field and a fraction. -/
def pattern (format : BinaryFormat) (negative : Bool) (field fraction : ℕ) : ℕ :=
  ((if negative then 2 ^ format.exponentWidth else 0) + field) * 2 ^ format.fractionWidth + fraction

theorem signBit_eq (format : BinaryFormat) :
    format.signBit = 2 ^ format.fractionWidth * 2 ^ format.exponentWidth := by
  unfold signBit
  rw [Nat.pow_eq, pow_add, Nat.mul_comm]

theorem signBit_add (format : BinaryFormat) (negative : Bool) (field fraction : ℕ) :
    (if negative then format.signBit + (field * 2 ^ format.fractionWidth + fraction)
      else field * 2 ^ format.fractionWidth + fraction) =
      format.pattern negative field fraction := by
  unfold pattern
  rw [signBit_eq]
  split <;> ring

section Fields

variable {field fraction : ℕ} (fieldLt : field < 2 ^ format.exponentWidth)
  (fractionLt : fraction < 2 ^ format.fractionWidth)

include fieldLt fractionLt

theorem pattern_lt (negative : Bool) :
    format.pattern negative field fraction <
      2 ^ (1 + format.exponentWidth + format.fractionWidth) := by
  have upper : (if negative then 2 ^ format.exponentWidth else 0) + field + 1 ≤
      2 * 2 ^ format.exponentWidth := by
    split <;> omega
  unfold pattern
  calc ((if negative then 2 ^ format.exponentWidth else 0) + field) * 2 ^ format.fractionWidth +
        fraction
      < ((if negative then 2 ^ format.exponentWidth else 0) + field) * 2 ^ format.fractionWidth +
        2 ^ format.fractionWidth := by omega
    _ = ((if negative then 2 ^ format.exponentWidth else 0) + field + 1) *
        2 ^ format.fractionWidth := by ring
    _ ≤ 2 * 2 ^ format.exponentWidth * 2 ^ format.fractionWidth := by gcongr
    _ = 2 ^ (1 + format.exponentWidth + format.fractionWidth) := by ring

theorem value_pattern (negative : Bool) :
    format.value (format.pattern negative field fraction) =
      if field = format.specialField then
        if fraction = 0 then infinity negative else notANumber
      else if field = 0 then ofBinary negative fraction format.leastUnit
      else ofBinary negative (2 ^ format.fractionWidth + fraction)
        (format.leastUnit + field - 1) := by
  have widthPos : 0 < 2 ^ format.fractionWidth := by positivity
  have fieldsPos : 0 < 2 ^ format.exponentWidth := by positivity
  have upper : format.pattern negative field fraction / 2 ^ format.fractionWidth =
      (if negative then 2 ^ format.exponentWidth else 0) + field := by
    unfold pattern
    rw [Nat.mul_comm, Nat.mul_add_div widthPos, Nat.div_eq_of_lt fractionLt, Nat.add_zero]
  have sign : (format.pattern negative field fraction / format.signBit % 2 == 1) = negative := by
    rw [signBit_eq, ← Nat.div_div_eq_div_mul, upper]
    cases negative with
    | false =>
      simp only [Bool.false_eq_true, if_false, Nat.zero_add, Nat.div_eq_of_lt fieldLt]
      rfl
    | true =>
      simp only [if_true, Nat.add_div_left _ fieldsPos, Nat.div_eq_of_lt fieldLt]
      rfl
  have high : format.pattern negative field fraction / 2 ^ format.fractionWidth %
      2 ^ format.exponentWidth = field := by
    rw [upper]
    split
    · rw [Nat.add_mod_left, Nat.mod_eq_of_lt fieldLt]
    · rw [Nat.zero_add, Nat.mod_eq_of_lt fieldLt]
  have low : format.pattern negative field fraction % 2 ^ format.fractionWidth = fraction := by
    unfold pattern
    rw [Nat.mul_comm, Nat.mul_add_mod, Nat.mod_eq_of_lt fractionLt]
  unfold value
  simp only [Nat.pow_eq, sign, high, low]

end Fields

/-! ### Numbers with a pattern -/

/-- A magnitude with a pattern, by `magnitudeBits?`, is a number of units of some exponent: it has
the hidden bit, unless the unit is the least one. -/
theorem exists_units_of_magnitudeBits {significand bits : ℕ} {exponent : ℤ}
    (positive : 0 < significand)
    (found : format.magnitudeBits? significand exponent = some bits) :
    ∃ units step : ℕ, bits = step * 2 ^ format.fractionWidth + units ∧
      units < 2 ^ (format.fractionWidth + 1) ∧
      (0 < step → 2 ^ format.fractionWidth ≤ units ∧
        format.leastUnit + step + format.fractionWidth ≤ format.greatestExponent) ∧
      (units : ℚ) * 2 ^ (format.leastUnit + step) = significand * 2 ^ exponent := by
  unfold magnitudeBits? at found
  simp only [Nat.pow_eq] at found
  rw [if_neg positive.ne'] at found
  split at found
  · cases found
  rename_i within
  split at found
  · rename_i divisible
    generalize unitIs : max ((significand.log2 : ℤ) + exponent - format.fractionWidth)
      format.leastUnit = unit at found divisible
    cases found
    obtain ⟨leadingLe, ltLeading⟩ := log2_bounds positive
    have least : format.leastUnit + ((unit - format.leastUnit).toNat : ℤ) = unit := by omega
    -- All units are whole, so dividing loses nothing.
    have whole : ((significand / 2 ^ (unit - exponent).toNat * 2 ^ (exponent - unit).toNat : ℕ) : ℚ)
        = significand * 2 ^ (exponent - unit) := by
      obtain ⟨quotient, multiple⟩ := Nat.dvd_of_mod_eq_zero divisible
      rw [multiple, Nat.mul_div_cancel_left _ (by positivity), two_zpow, neg_sub]
      push_cast
      field_simp
    refine ⟨_, _, rfl, ?_, fun grown => ⟨?_, by omega⟩, ?_⟩
    · have upper : (significand : ℚ) * 2 ^ (exponent - unit) <
          2 ^ ((format.fractionWidth + 1 : ℕ) : ℤ) := by
        calc (significand : ℚ) * 2 ^ (exponent - unit)
            < 2 ^ ((significand.log2 : ℤ) + 1) * 2 ^ (exponent - unit) := by gcongr
          _ = 2 ^ ((significand.log2 : ℤ) + 1 + (exponent - unit)) :=
            (zpow_add₀ two_ne_zero ..).symm
          _ ≤ 2 ^ ((format.fractionWidth + 1 : ℕ) : ℤ) :=
            zpow_le_zpow_right₀ one_le_two (by push_cast; omega)
      rw [← whole, zpow_natCast] at upper
      exact_mod_cast upper
    · have lower : (2 : ℚ) ^ (format.fractionWidth : ℤ) ≤ significand * 2 ^ (exponent - unit) := by
        calc (2 : ℚ) ^ (format.fractionWidth : ℤ)
            = 2 ^ ((significand.log2 : ℤ) + (exponent - unit)) := by
              congr 1
              omega
          _ = 2 ^ (significand.log2 : ℤ) * 2 ^ (exponent - unit) := zpow_add₀ two_ne_zero ..
          _ ≤ significand * 2 ^ (exponent - unit) := by gcongr
      rw [← whole, zpow_natCast] at lower
      exact_mod_cast lower
    · rw [whole, least, mul_assoc, ← zpow_add₀ two_ne_zero, sub_add_cancel]
  · cases found

/-- A format whose exponent field is wide enough to hold more than its special values, and which has
a fraction. -/
structure Proper (format : BinaryFormat) : Prop where
  exponent : 2 ≤ format.exponentWidth
  fraction : 1 ≤ format.fractionWidth

theorem proper_half : half.Proper := ⟨by decide, by decide⟩

theorem proper_single : single.Proper := ⟨by decide, by decide⟩

/-- The exponent field and the fraction of a magnitude, and that they hold it. -/
theorem exists_fields_of_magnitudeBits {significand bits : ℕ} {exponent : ℤ}
    (proper : format.Proper) (found : format.magnitudeBits? significand exponent = some bits) :
    ∃ field fraction : ℕ, field < format.specialField ∧ fraction < 2 ^ format.fractionWidth ∧
      bits = field * 2 ^ format.fractionWidth + fraction ∧
      if field = 0 then (fraction : ℚ) * 2 ^ format.leastUnit = significand * 2 ^ exponent
      else ((2 ^ format.fractionWidth + fraction : ℕ) : ℚ) * 2 ^ (format.leastUnit + field - 1) =
        significand * 2 ^ exponent := by
  have fieldsLarge : 2 ^ 2 ≤ 2 ^ format.exponentWidth :=
    Nat.pow_le_pow_right (by norm_num) proper.exponent
  have special : 3 ≤ format.specialField := by
    unfold specialField
    rw [Nat.pow_eq]
    omega
  rcases Nat.eq_zero_or_pos significand with rfl | positive
  · obtain rfl : 0 = bits := Option.some.inj found
    exact ⟨0, 0, by omega, by positivity, by simp, by simp⟩
  obtain ⟨units, step, rfl, unitsLt, grown, same⟩ := exists_units_of_magnitudeBits positive found
  rw [pow_succ] at unitsLt
  rcases Nat.lt_or_ge units (2 ^ format.fractionWidth) with small | hidden
  · have still : step = 0 := Nat.eq_zero_of_not_pos fun stepPos =>
      absurd (grown stepPos).1 (Nat.not_le.mpr small)
    subst still
    refine ⟨0, units, by omega, small, rfl, ?_⟩
    rw [if_pos rfl, ← same]
    simp
  · refine ⟨step + 1, units - 2 ^ format.fractionWidth, ?_, by omega, ?_, ?_⟩
    · rcases Nat.eq_zero_or_pos step with rfl | stepPos
      · omega
      · have within := (grown stepPos).2
        have doubled : 2 ^ format.exponentWidth = 2 * 2 ^ (format.exponentWidth - 1) := by
          rw [← pow_succ']
          congr 1
          have := proper.exponent
          omega
        unfold leastUnit greatestExponent at within
        unfold specialField
        rw [Nat.pow_eq] at within ⊢
        omega
    · rw [Nat.add_mul]
      omega
    · rw [if_neg (Nat.succ_ne_zero step), Nat.add_sub_cancel' hidden, ← same]
      congr 2
      push_cast
      ring

/-- A number that has a pattern in a format, by `bits?`, is what the pattern encodes. -/
theorem value_of_bits? {value : Float} {bits : ℕ} (proper : format.Proper)
    (found : format.bits? value = some bits) :
    format.value bits = value ∧ bits < 2 ^ (1 + format.exponentWidth + format.fractionWidth) := by
  have fieldsLarge : 2 ^ 2 ≤ 2 ^ format.exponentWidth :=
    Nat.pow_le_pow_right (by norm_num) proper.exponent
  have specialLt : format.specialField < 2 ^ format.exponentWidth := by
    unfold specialField
    rw [Nat.pow_eq]
    omega
  unfold bits? at found
  simp only [Nat.pow_eq] at found
  cases parts : exact value with
  | notANumber =>
    rw [parts] at found
    cases found
    have quiet : 2 ^ (format.fractionWidth - 1) < 2 ^ format.fractionWidth :=
      Nat.pow_lt_pow_right (by norm_num) (by have := proper.fraction; omega)
    have same := format.signBit_add false format.specialField (2 ^ (format.fractionWidth - 1))
    rw [if_neg Bool.false_ne_true] at same
    rw [same, value_pattern specialLt quiet, if_pos rfl, if_neg (by positivity)]
    exact ⟨(eq_notANumber parts).symm, pattern_lt specialLt quiet false⟩
  | infinite negative =>
    rw [parts] at found
    cases found
    have same := format.signBit_add negative format.specialField 0
    rw [Nat.add_zero] at same
    rw [same, value_pattern specialLt (by positivity), if_pos rfl, if_pos rfl]
    exact ⟨(eq_infinity parts).symm, pattern_lt specialLt (by positivity) negative⟩
  | finite negative significand exponent =>
    rw [parts] at found
    obtain ⟨magnitude, magnitudeFound, rfl⟩ := Option.map_eq_some_iff.mp found
    obtain ⟨field, fraction, fieldLt, fractionLt, rfl, holds⟩ :=
      exists_fields_of_magnitudeBits proper magnitudeFound
    rw [signBit_add, value_pattern (fieldLt.trans specialLt) fractionLt, if_neg fieldLt.ne]
    refine ⟨?_, pattern_lt (fieldLt.trans specialLt) fractionLt negative⟩
    split
    · rename_i zero
      rw [if_pos zero] at holds
      exact ofBinary_of_eq parts holds
    · rename_i nonzero
      rw [if_neg nonzero] at holds
      exact ofBinary_of_eq parts holds

end ScriptEngine.Number.BinaryFormat
