/-
This file is about the nearest double. The double nearest to a ratio depends on the ratio alone
and not on how it is written as a fraction, and the double nearest to the exact value of a finite
double is that double. The exponent is the one fact behind both: it is the only one whose power
of two is at most the ratio while the next is above it.
-/

import Mathlib
import ScriptEngine.Number.Exact

namespace ScriptEngine.Number

/-! ### Powers of two as fractions -/

/-- A power of two with a whole exponent as a fraction of powers with natural ones. -/
theorem two_zpow (exponent : ℤ) :
    (2 : ℚ) ^ exponent = (2 ^ exponent.toNat : ℕ) / (2 ^ (-exponent).toNat : ℕ) := by
  obtain ⟨size, rfl | rfl⟩ := exponent.eq_nat_or_neg
  · simp
  · simp

theorem binary_eq_ratio (significand : ℕ) (exponent : ℤ) :
    ((significand * 2 ^ exponent.toNat : ℕ) / (2 ^ (-exponent).toNat : ℕ) : ℚ) =
      significand * 2 ^ exponent := by
  rw [two_zpow]
  push_cast
  ring

theorem le_ratio_iff {numerator denominator : ℕ} (positive : 0 < denominator) (exponent : ℤ) :
    denominator * 2 ^ exponent.toNat ≤ numerator * 2 ^ (-exponent).toNat ↔
      (2 : ℚ) ^ exponent ≤ numerator / denominator := by
  rw [two_zpow, div_le_div_iff₀ (by positivity) (by exact_mod_cast positive)]
  norm_cast
  rw [Nat.mul_comm denominator]

/-! ### The exponent of a ratio -/

/-- At most one power of two has a ratio between it and its double. -/
theorem exponent_unique {ratio : ℚ} {first second : ℤ} (firstLe : (2 : ℚ) ^ first ≤ ratio)
    (ltFirst : ratio < 2 ^ (first + 1)) (secondLe : (2 : ℚ) ^ second ≤ ratio)
    (ltSecond : ratio < 2 ^ (second + 1)) : first = second := by
  have below : first < second + 1 :=
    (zpow_lt_zpow_iff_right₀ one_lt_two).mp (firstLe.trans_lt ltSecond)
  have above : second < first + 1 :=
    (zpow_lt_zpow_iff_right₀ one_lt_two).mp (secondLe.trans_lt ltFirst)
  omega

theorem log2_bounds {value : ℕ} (positive : 0 < value) :
    (2 : ℚ) ^ (value.log2 : ℤ) ≤ value ∧ (value : ℚ) < 2 ^ ((value.log2 : ℤ) + 1) := by
  constructor
  · rw [zpow_natCast]
    exact_mod_cast Nat.log2_self_le positive.ne'
  · rw [← Nat.cast_succ, zpow_natCast]
    exact_mod_cast Nat.lt_log2_self

/-- The `binaryExponent` of a positive ratio: its power of two is reached and the next one is not.
-/
theorem binaryExponent_bounds {numerator denominator : ℕ} (numeratorPos : 0 < numerator)
    (denominatorPos : 0 < denominator) :
    (2 : ℚ) ^ binaryExponent numerator denominator ≤ numerator / denominator ∧
      (numerator / denominator : ℚ) < 2 ^ (binaryExponent numerator denominator + 1) := by
  obtain ⟨topLe, ltTop⟩ := log2_bounds numeratorPos
  obtain ⟨bottomLe, ltBottom⟩ := log2_bounds denominatorPos
  have bottomPos : (0 : ℚ) < denominator := by exact_mod_cast denominatorPos
  -- The difference of the logarithms is the exponent or one more than it.
  have upper : (numerator / denominator : ℚ) <
      2 ^ ((numerator.log2 : ℤ) - denominator.log2 + 1) := by
    rw [div_lt_iff₀ bottomPos]
    calc (numerator : ℚ) < 2 ^ ((numerator.log2 : ℤ) + 1) := ltTop
      _ = 2 ^ ((numerator.log2 : ℤ) - denominator.log2 + 1) * 2 ^ (denominator.log2 : ℤ) := by
        rw [← zpow_add₀ two_ne_zero]
        ring_nf
      _ ≤ _ := by gcongr
  have lower : (2 : ℚ) ^ ((numerator.log2 : ℤ) - denominator.log2 - 1) ≤
      numerator / denominator := by
    rw [le_div_iff₀ bottomPos]
    calc (2 : ℚ) ^ ((numerator.log2 : ℤ) - denominator.log2 - 1) * denominator
        ≤ 2 ^ ((numerator.log2 : ℤ) - denominator.log2 - 1) * 2 ^ ((denominator.log2 : ℤ) + 1) := by
          gcongr
      _ = 2 ^ (numerator.log2 : ℤ) := by
        rw [← zpow_add₀ two_ne_zero]
        ring_nf
      _ ≤ numerator := topLe
  unfold binaryExponent
  simp only [Nat.pow_eq]
  split
  · rename_i reached
    exact ⟨(le_ratio_iff denominatorPos _).mp reached, upper⟩
  · rename_i missed
    have missed := fun reached => missed ((le_ratio_iff denominatorPos _).mpr reached)
    refine ⟨lower, ?_⟩
    rw [sub_add_cancel]
    exact lt_of_not_ge missed

theorem binaryExponent_eq {numerator denominator : ℕ} {exponent : ℤ} (numeratorPos : 0 < numerator)
    (denominatorPos : 0 < denominator) (reached : (2 : ℚ) ^ exponent ≤ numerator / denominator)
    (missed : (numerator / denominator : ℚ) < 2 ^ (exponent + 1)) :
    binaryExponent numerator denominator = exponent := by
  obtain ⟨ownReached, ownMissed⟩ := binaryExponent_bounds numeratorPos denominatorPos
  exact exponent_unique ownReached ownMissed reached missed

/-! ### Only the ratio counts -/

theorem roundHalfEven_mul_left {factor : ℕ} (positive : 0 < factor) (numerator denominator : ℕ) :
    roundHalfEven (factor * numerator) (factor * denominator) =
      roundHalfEven numerator denominator := by
  unfold roundHalfEven
  rw [Nat.mul_div_mul_left _ _ positive, Nat.mul_mod_mul_left]
  have above : factor * denominator < 2 * (factor * (numerator % denominator)) ↔
      denominator < 2 * (numerator % denominator) := by
    rw [Nat.mul_left_comm]
    exact Nat.mul_lt_mul_left positive
  have middle : factor * denominator = 2 * (factor * (numerator % denominator)) ↔
      denominator = 2 * (numerator % denominator) := by
    rw [Nat.mul_left_comm]
    exact Nat.mul_right_inj positive.ne'
  simp only [above, middle]

theorem roundHalfEven_congr {numerator denominator other below : ℕ} (positive : 0 < denominator)
    (belowPos : 0 < below) (same : numerator * below = other * denominator) :
    roundHalfEven numerator denominator = roundHalfEven other below := by
  rw [← roundHalfEven_mul_left belowPos numerator, ← roundHalfEven_mul_left positive other,
    Nat.mul_comm below numerator, same, Nat.mul_comm other, Nat.mul_comm below]

/-- A whole number is its own rounding, by `roundHalfEven`. -/
theorem roundHalfEven_mul {denominator : ℕ} (positive : 0 < denominator) (value : ℕ) :
    roundHalfEven (value * denominator) denominator = value := by
  unfold roundHalfEven
  rw [Nat.mul_div_cancel _ positive, Nat.mul_mod_left]
  simp [positive.ne']

theorem ratio_eq {numerator denominator other below : ℕ} (positive : 0 < denominator)
    (belowPos : 0 < below) (same : numerator * below = other * denominator) :
    (numerator / denominator : ℚ) = other / below := by
  rw [div_eq_div_iff (by positivity) (by positivity)]
  exact_mod_cast same

theorem significandAt_congr {numerator denominator other below : ℕ} (positive : 0 < denominator)
    (belowPos : 0 < below) (same : numerator * below = other * denominator) (exponent : ℤ) :
    significandAt numerator denominator exponent = significandAt other below exponent := by
  unfold significandAt
  simp only [Nat.pow_eq]
  refine roundHalfEven_congr (by positivity) (by positivity) ?_
  calc numerator * 2 ^ (-exponent).toNat * (below * 2 ^ exponent.toNat)
      = numerator * below * (2 ^ (-exponent).toNat * 2 ^ exponent.toNat) := by ring
    _ = other * denominator * (2 ^ (-exponent).toNat * 2 ^ exponent.toNat) := by rw [same]
    _ = other * 2 ^ (-exponent).toNat * (denominator * 2 ^ exponent.toNat) := by ring

theorem nearestBits_congr {numerator denominator other below : ℕ} (numeratorPos : 0 < numerator)
    (otherPos : 0 < other) (positive : 0 < denominator) (belowPos : 0 < below)
    (same : numerator * below = other * denominator) :
    nearestBits numerator denominator = nearestBits other below := by
  have ratio := ratio_eq positive belowPos same
  obtain ⟨reached, missed⟩ := binaryExponent_bounds otherPos belowPos
  rw [← ratio] at reached missed
  unfold nearestBits
  rw [binaryExponent_eq numeratorPos positive reached missed]
  simp only [significandAt_congr positive belowPos same]

/-- The nearest double, `ofRatio`, depends on the ratio alone. -/
theorem ofRatio_congr {numerator denominator other below : ℕ} (positive : 0 < denominator)
    (belowPos : 0 < below) (same : numerator * below = other * denominator) (negative : Bool) :
    ofRatio negative numerator denominator = ofRatio negative other below := by
  unfold ofRatio
  by_cases zero : numerator = 0
  · have otherZero : other = 0 := by
      rw [zero, Nat.zero_mul] at same
      exact (Nat.mul_eq_zero.mp same.symm).resolve_right positive.ne'
    simp [zero, otherZero]
  · have otherNonzero : other ≠ 0 := by
      rintro rfl
      rw [Nat.zero_mul] at same
      exact zero ((Nat.mul_eq_zero.mp same).resolve_right belowPos.ne')
    rw [if_neg zero, if_neg otherNonzero, nearestBits_congr (Nat.pos_of_ne_zero zero)
      (Nat.pos_of_ne_zero otherNonzero) positive belowPos same]

/-! ### The double of an exact value -/

/-- What the parts of a finite double are, and how its bits hold them. The significand has its
highest bit set, unless the exponent is the least one. -/
theorem bits_of_exact {value : Float} {negative : Bool} {significand : ℕ} {exponent : ℤ}
    (finite : exact value = .finite negative significand exponent) :
    value.toBits.toNat =
        (if negative then 2 ^ 63 else 0) + ((exponent + 1074).toNat * 2 ^ 52 + significand) ∧
      (exponent = -1074 ∧ significand < 2 ^ 52 ∨
        2 ^ 52 ≤ significand ∧ significand < 2 ^ 53 ∧ -1074 ≤ exponent ∧ exponent ≤ 971) := by
  unfold exact Exact.ofBits at finite
  have bound := value.toBits.toNat_lt
  generalize value.toBits.toNat = bits at finite bound
  simp only [Nat.pow_eq] at finite
  norm_num at finite bound ⊢
  have sign : (if (bits / 9223372036854775808 % 2 == 1) = true then 9223372036854775808 else 0) =
      bits / 9223372036854775808 * 9223372036854775808 := by
    simp only [beq_iff_eq]
    split <;> omega
  split at finite
  · split at finite <;> cases finite
  · split at finite
    · cases finite
      rw [sign]
      exact ⟨by omega, .inl ⟨rfl, by omega⟩⟩
    · cases finite
      rw [sign]
      exact ⟨by omega, .inr ⟨by omega, by omega, by omega, by omega⟩⟩

/-- The `nearestBits` of a magnitude that a double has exactly. -/
theorem nearestBits_binary {significand : ℕ} {exponent : ℤ} (positive : 0 < significand)
    (shape : exponent = -1074 ∧ significand < 2 ^ 52 ∨
      2 ^ 52 ≤ significand ∧ significand < 2 ^ 53 ∧ -1074 ≤ exponent ∧ exponent ≤ 971) :
    nearestBits (significand * 2 ^ exponent.toNat) (2 ^ (-exponent).toNat) =
      (exponent + 1074).toNat * 2 ^ 52 + significand := by
  have ratio := binary_eq_ratio significand exponent
  have exponentIs : max (binaryExponent (significand * 2 ^ exponent.toNat)
      (2 ^ (-exponent).toNat) - 52) (-1074) = exponent := by
    obtain ⟨reached, missed⟩ := binaryExponent_bounds
      (show 0 < significand * 2 ^ exponent.toNat by positivity)
      (show 0 < 2 ^ (-exponent).toNat by positivity)
    rw [ratio] at reached missed
    generalize binaryExponent (significand * 2 ^ exponent.toNat) (2 ^ (-exponent).toNat) = found
      at reached missed
    rcases shape with ⟨rfl, small⟩ | ⟨normal, small, least, _⟩
    · have below : (significand : ℚ) * 2 ^ (-1074 : ℤ) < 2 ^ (52 + -1074 : ℤ) := by
        rw [zpow_add₀ two_ne_zero]
        gcongr
        exact_mod_cast small
      have := (zpow_lt_zpow_iff_right₀ (one_lt_two : (1 : ℚ) < 2)).mp (reached.trans_lt below)
      omega
    · have below : (significand : ℚ) * 2 ^ exponent < 2 ^ (53 + exponent) := by
        rw [zpow_add₀ two_ne_zero]
        gcongr
        exact_mod_cast small
      have above : (2 : ℚ) ^ (52 + exponent) ≤ significand * 2 ^ exponent := by
        rw [zpow_add₀ two_ne_zero]
        gcongr
        exact_mod_cast normal
      have base : (1 : ℚ) < 2 := one_lt_two
      have atMost := (zpow_lt_zpow_iff_right₀ base).mp (reached.trans_lt below)
      have atLeast := (zpow_lt_zpow_iff_right₀ base).mp (above.trans_lt missed)
      omega
  have rounded : significandAt (significand * 2 ^ exponent.toNat) (2 ^ (-exponent).toNat)
      exponent = significand := by
    unfold significandAt
    simp only [Nat.pow_eq]
    have same : significand * 2 ^ exponent.toNat * 2 ^ (-exponent).toNat =
        significand * (2 ^ (-exponent).toNat * 2 ^ exponent.toNat) := by ring
    rw [same]
    exact roundHalfEven_mul (by positivity) significand
  unfold nearestBits
  simp only [Nat.pow_eq, exponentIs, rounded]
  refine Nat.min_eq_left ?_
  rcases shape with ⟨rfl, small⟩ | ⟨normal, small, least, most⟩
  · norm_num at small ⊢
    omega
  · norm_num at small ⊢
    omega

/-- The double nearest to the exact value of a finite double is that double. -/
theorem ofBinary_of_exact {value : Float} {negative : Bool} {significand : ℕ} {exponent : ℤ}
    (finite : exact value = .finite negative significand exponent) :
    ofBinary negative significand exponent = value := by
  obtain ⟨bits, shape⟩ := bits_of_exact finite
  have magnitude : (if significand * 2 ^ exponent.toNat = 0 then 0
      else nearestBits (significand * 2 ^ exponent.toNat) (2 ^ (-exponent).toNat)) =
        (exponent + 1074).toNat * 2 ^ 52 + significand := by
    split
    · rename_i zero
      obtain rfl : significand = 0 := (Nat.mul_eq_zero.mp zero).resolve_right (by positivity)
      rcases shape with ⟨rfl, _⟩ | ⟨normal, _⟩
      · rfl
      · norm_num at normal
    · rename_i nonzero
      exact nearestBits_binary (Nat.pos_of_ne_zero fun zero => nonzero (by rw [zero]; ring)) shape
  unfold ofBinary ofRatio
  simp only [Nat.pow_eq]
  rw [magnitude]
  have same : (if negative = true then (exponent + 1074).toNat * 2 ^ 52 + significand + 2 ^ 63
      else (exponent + 1074).toNat * 2 ^ 52 + significand) = value.toBits.toNat := by
    rw [bits]
    split <;> ring
  rw [same]
  exact (congrArg Float.ofBits UInt64.ofNat_toNat).trans (Float.ofBits_toBits value)

/-- Every fraction of the `exact` value of a finite double gives that double. -/
theorem ofRatio_of_exact {value : Float} {negative : Bool} {significand : ℕ} {exponent : ℤ}
    {numerator denominator : ℕ} (finite : exact value = .finite negative significand exponent)
    (positive : 0 < denominator)
    (same : (numerator / denominator : ℚ) = significand * 2 ^ exponent) :
    ofRatio negative numerator denominator = value := by
  rw [← ofBinary_of_exact finite]
  refine ofRatio_congr positive (Nat.pow_pos (by norm_num)) ?_ negative
  simp only [Nat.pow_eq]
  rw [← binary_eq_ratio, div_eq_div_iff (by positivity) (by positivity)] at same
  exact_mod_cast same

theorem ofBinary_of_eq {value : Float} {negative : Bool} {significand other : ℕ}
    {exponent place : ℤ} (finite : exact value = .finite negative significand exponent)
    (same : (other : ℚ) * 2 ^ place = significand * 2 ^ exponent) :
    ofBinary negative other place = value := by
  have positive : 0 < Nat.pow 2 (-place).toNat := Nat.pow_pos (by norm_num)
  refine ofRatio_of_exact finite positive ?_
  simp only [Nat.pow_eq]
  rw [binary_eq_ratio, same]

/-! ### Bits and doubles -/

section Patterns

open Float.Model Float.Model.UnpackedFloat

theorem toNat_exponent (bits : UInt64) :
    (@unpackExponent Format.binary64 bits.toBitVec).toNat = bits.toNat / 2 ^ 52 % 2 ^ 11 := by
  rw [unpackExponent_def, BitVec.extractLsb'_toNat, Nat.shiftRight_eq_div_pow]
  rfl

theorem toNat_mantissa (bits : UInt64) :
    (@unpackMantissa Format.binary64 bits.toBitVec).toNat = bits.toNat % 2 ^ 52 := by
  rw [unpackMantissa_def, BitVec.extractLsb'_toNat]
  rfl

/-- A pattern that does not mean "no number" is the pattern of its double. -/
theorem toBits_ofBits {bits : UInt64} (number : bits.toNat % 2 ^ 63 ≤ 2047 * 2 ^ 52) :
    (Float.ofBits bits).toBits = bits := by
  apply UInt64.toBitVec_inj.mp
  change (unpack Format.binary64 bits.toBitVec).pack Format.binary64 = bits.toBitVec
  have proper : @isNaNBits Format.binary64 bits.toBitVec = false := by
    refine decide_eq_false fun special => special.2 (BitVec.eq_of_toNat_eq ?_)
    have field := toNat_exponent bits
    rw [special.1] at field
    rw [toNat_mantissa]
    norm_num at field number ⊢
    omega
  rw [pack_unpack, proper]
  rfl

theorem eq_notANumber {value : Float} (special : exact value = .notANumber) :
    value = notANumber := by
  have fields : value.toBits.toNat / 2 ^ 52 % 2 ^ 11 = 2047 ∧ value.toBits.toNat % 2 ^ 52 ≠ 0 := by
    unfold exact Exact.ofBits at special
    simp only [Nat.pow_eq] at special
    split at special
    · rename_i field
      split at special
      · cases special
      · rename_i fraction
        exact ⟨field, fraction⟩
    · split at special <;> cases special
  have canonical := value.toModel.valid.eq_packedNaN
    (BitVec.eq_of_toNat_eq ((toNat_exponent value.toBits).trans fields.1))
    (fun zero => fields.2 ((toNat_mantissa value.toBits).symm.trans
      (congrArg BitVec.toNat zero)))
  rw [← Float.ofBits_toBits value]
  exact congrArg Float.ofBits (UInt64.toBitVec_inj.mp canonical)

end Patterns

theorem eq_infinity {value : Float} {negative : Bool}
    (infinite : exact value = .infinite negative) : value = infinity negative := by
  unfold exact Exact.ofBits at infinite
  simp only [Nat.pow_eq] at infinite
  have bound := value.toBits.toNat_lt
  rw [← Float.ofBits_toBits value]
  refine congrArg Float.ofBits (UInt64.toNat_inj.mp ?_)
  split at infinite
  · rename_i field
    split at infinite
    · rename_i fraction
      cases infinite
      norm_num at field fraction bound ⊢
      split
      · rename_i sign
        change _ = 18442240474082181120
        omega
      · rename_i sign
        change _ = 9218868437227405312
        omega
    · cases infinite
  · split at infinite <;> cases infinite

end ScriptEngine.Number
