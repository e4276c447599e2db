/-
This file takes the hardware's operations on doubles back to exact values. A finite double is
unpacked into the sign, the significand and the exponent of its exact value, and rounding keeps
whatever a double is equal to. So a sum that is a double is found exactly, a double is below zero if
its sign says so, and a natural number is converted to a word as it is.
-/

import Mathlib
import ScriptEngine.Number.Integer
import ScriptEngine.Proofs.Number.Shortest

namespace ScriptEngine.Number

open Float.Model Float.Model.UnpackedFloat

variable {value : Float} {negative : Bool} {significand magnitude other : ℕ} {exponent place : ℤ}

/-! ### Unpacking -/

/-- The sign that an unpacked double has. -/
def signOf (negative : Bool) : Sign :=
  if negative then .negative else .positive

theorem apply_signOf (negative : Bool) (magnitude : ℕ) :
    (signOf negative).apply magnitude = signed negative magnitude := by
  cases negative <;> rfl

theorem toNat_sign (bits : UInt64) :
    (@unpackSign Format.binary64 bits.toBitVec).toNat = bits.toNat / 2 ^ 63 % 2 := by
  rw [unpackSign_def, BitVec.extractLsb'_toNat, Nat.shiftRight_eq_div_pow]
  rfl

theorem ofBitVec_eq (sign : BitVec 1) : Sign.ofBitVec sign = signOf (sign.toNat == 1) := by
  rcases BitVec.eq_zero_or_eq_one sign with rfl | rfl <;> rfl

/-- A finite double is unpacked into the parts of its `exact` value. -/
theorem unpack_of_exact (finite : exact value = .finite negative significand exponent) :
    value.toModel.unpack = if positive : 0 < significand
      then .finite (signOf negative) significand exponent positive
      else .zero (signOf negative) := by
  have field := toNat_exponent value.toBits
  have fraction := toNat_mantissa value.toBits
  have sign := toNat_sign value.toBits
  unfold exact Exact.ofBits at finite
  simp only [Nat.pow_eq, ← field, ← fraction, ← sign] at finite
  change unpack Format.binary64 value.toBits.toBitVec = _
  unfold UnpackedFloat.unpack
  dsimp only
  rw [ofBitVec_eq]
  generalize ((@unpackSign Format.binary64 value.toBits.toBitVec).toNat == 1) = sign at finite ⊢
  generalize (@unpackExponent Format.binary64 value.toBits.toBitVec) = biased at finite ⊢
  have special : biased = -1#11 ↔ biased.toNat = 2047 := BitVec.toNat_inj.symm
  have least : biased = 0#11 ↔ biased.toNat = 0 := BitVec.toNat_inj.symm
  have zero : @unpackMantissa Format.binary64 value.toBits.toBitVec = 0#52 ↔
      (@unpackMantissa Format.binary64 value.toBits.toBitVec).toNat = 0 := BitVec.toNat_inj.symm
  split at finite
  · split at finite <;> cases finite
  · case isFalse ordinary =>
    rw [if_neg (mt special.mp ordinary)]
    split at finite
    · case isTrue subnormal =>
      cases finite
      rw [if_pos (least.mpr subnormal)]
      split
      · case isTrue none => rw [dif_neg (by rw [zero.mp none]; exact Nat.lt_irrefl 0)]
      · case isFalse some =>
        rw [dif_pos (Nat.pos_of_ne_zero (mt zero.mpr some))]
        congr 1
        rw [subnormal]
        rfl
    · case isFalse normal =>
      cases finite
      rw [if_neg (mt least.mp normal), dif_pos (by positivity)]
      congr 1
      rw [BitVec.toNat_append, ← Nat.shiftLeft_add_eq_or_of_lt (BitVec.isLt _)]
      rfl

theorem pack_unpack_model (value : Float) :
    Float.Model.pack value.toModel.unpack = value.toModel := by
  have same := pack_unpack_of_valid value.toModel.valid
  obtain ⟨⟨bits, valid⟩⟩ := value
  exact Float.Model.mk.injEq .. ▸ UInt64.toBitVec_inj.mp same

theorem isNaN_eq_false (finite : exact value = .finite negative significand exponent) :
    value.isNaN = false := by
  change value.toModel.unpack.isNaN = false
  rw [unpack_of_exact finite]
  split <;> rfl

/-- A finite double is below zero just if it has a sign and is not zero. -/
theorem lt_zero_iff (finite : exact value = .finite negative significand exponent) :
    value < 0 ↔ negative = true ∧ 0 < significand := by
  have isZero : exact 0 = .finite false 0 (-1074) := rfl
  change (decide ((value.toModel.unpack.compare (0 : Float).toModel.unpack == some .lt) = true)) =
    true ↔ _
  rw [unpack_of_exact finite, unpack_of_exact isZero]
  by_cases positive : 0 < significand <;> cases negative <;>
    simp [positive, signOf, UnpackedFloat.compare]

/-! ### Rounding what needs no rounding -/

/-- The parts of a double that is neither zero nor special. -/
structure Shaped (significand : ℕ) (exponent : ℤ) : Prop where
  positive : 0 < significand
  proper : exponent = -1074 ∧ significand < 2 ^ 52 ∨
    2 ^ 52 ≤ significand ∧ significand < 2 ^ 53 ∧ -1074 ≤ exponent ∧ exponent ≤ 971

theorem shaped_of_exact (finite : exact value = .finite negative significand exponent)
    (positive : 0 < significand) : Shaped significand exponent :=
  ⟨positive, (bits_of_exact finite).2⟩

/-- A number that is written in other units is positive with its significand. -/
theorem pos_iff_of_eq (same : (significand : ℚ) * 2 ^ exponent = magnitude) :
    0 < significand ↔ 0 < magnitude := by
  have unit : (0 : ℚ) < 2 ^ exponent := zpow_pos two_pos exponent
  rw [← Nat.cast_pos (α := ℚ), ← Nat.cast_pos (α := ℚ), ← same, mul_pos_iff_of_pos_right unit]

/-- Rounding aims at the exponent of the double that a number, which is `Shaped`, is equal to. -/
theorem targetExponent_eq (shape : Shaped significand exponent)
    (same : (other : ℚ) * 2 ^ place = significand * 2 ^ exponent) :
    Format.binary64.targetExponent (totalExponent other place) = exponent := by
  obtain ⟨positive, proper⟩ := shape
  have otherPos : 0 < other := by
    have whole : (0 : ℚ) < significand * 2 ^ exponent := by positivity
    rw [← same] at whole
    exact_mod_cast (mul_pos_iff_of_pos_right (zpow_pos two_pos place)).mp whole
  have base : (1 : ℚ) < 2 := one_lt_two
  obtain ⟨reached, missed⟩ := log2_bounds otherPos
  have lower : (2 : ℚ) ^ (other.log2 + place) ≤ significand * 2 ^ exponent := by
    rw [← same, zpow_add₀ two_ne_zero]
    gcongr
  have upper : significand * 2 ^ exponent < (2 : ℚ) ^ (other.log2 + place + 1) := by
    rw [← same, add_right_comm, zpow_add₀ two_ne_zero]
    gcongr
  have target : Format.binary64.targetExponent (totalExponent other place) =
      max (other.log2 + 1 + place - 53) (-1074) := rfl
  rw [target]
  rcases proper with ⟨rfl, small⟩ | ⟨normal, small, least, -⟩
  · have below : (significand : ℚ) * 2 ^ (-1074 : ℤ) < 2 ^ (52 + -1074 : ℤ) := by
      rw [zpow_add₀ two_ne_zero]
      gcongr
      exact_mod_cast small
    have := (zpow_lt_zpow_iff_right₀ base).mp (lower.trans_lt below)
    omega
  · have below : (significand : ℚ) * 2 ^ exponent < 2 ^ (52 + exponent + 1) := by
      rw [add_right_comm, zpow_add₀ two_ne_zero]
      gcongr
      exact_mod_cast small
    have above : (2 : ℚ) ^ (52 + exponent) ≤ significand * 2 ^ exponent := by
      rw [zpow_add₀ two_ne_zero]
      gcongr
      exact_mod_cast normal
    have := exponent_unique lower upper above below
    omega

/-- Zeros are shifted out without a trace. -/
theorem shiftRight_exact (significand count : ℕ) :
    ({ mantissa := significand * 2 ^ count, roundBit := false, stickyBit := false } :
      ExtendedMantissa) >>> count = ⟨significand, false, false⟩ := by
  change count.repeat ExtendedMantissa.shiftRightOne _ = _
  induction count generalizing significand with
  | zero => simp [Nat.repeat]
  | succ count ih =>
    rw [Nat.repeat, pow_succ', ← mul_assoc, ih]
    simp [ExtendedMantissa.shiftRightOne]

theorem roundWithAccuracy_exact {sign : Sign} (shape : Shaped significand exponent)
    (below : place ≤ exponent) (same : (other : ℚ) * 2 ^ place = significand * 2 ^ exponent) :
    roundWithAccuracy Format.binary64 sign other place .exact =
      .finite sign significand exponent shape.positive := by
  obtain ⟨count, rfl⟩ := Int.le.dest below
  have scaled : other = significand * 2 ^ count := by
    rw [zpow_add₀ two_ne_zero, zpow_natCast] at same
    have units : (2 : ℚ) ^ place ≠ 0 := (zpow_pos two_pos place).ne'
    have whole : (other : ℚ) = significand * 2 ^ count := by
      refine mul_right_cancel₀ units (same.trans ?_)
      ring
    exact_mod_cast whole
  have first : shiftToTargetExponent Format.binary64 other place .exact =
      (⟨significand, false, false⟩, place + count) := by
    unfold shiftToTargetExponent shiftToExponent
    rw [targetExponent_eq shape same]
    dsimp only
    rw [add_sub_cancel_left, Int.toNat_natCast, scaled]
    exact congrArg (·, place + (count : ℤ)) (shiftRight_exact significand count)
  -- nothing was rounded up, so the second shift finds the exponent as it should be
  have second : shiftToTargetExponent Format.binary64 significand (place + count) .exact =
      (⟨significand, false, false⟩, place + count) := by
    unfold shiftToTargetExponent shiftToExponent
    rw [targetExponent_eq shape rfl]
    dsimp only
    rw [sub_self]
    exact congrArg (ExtendedMantissa.mk significand false false, ·) (add_zero _)
  have kept : (ExtendedMantissa.mk significand false false).roundedMantissa = significand := rfl
  unfold roundWithAccuracy
  rw [first]
  dsimp only
  rw [kept, second, dif_neg shape.positive.ne']

/-- Rounding keeps what a double is equal to, if it is `Shaped`. -/
theorem round_exact {sign : Sign} (shape : Shaped significand exponent)
    (same : (other : ℚ) * 2 ^ place = significand * 2 ^ exponent) :
    round Format.binary64 sign other place = .finite sign significand exponent shape.positive := by
  unfold UnpackedFloat.round decreaseExponent
  rw [targetExponent_eq shape same]
  dsimp only
  rw [Nat.shiftLeft_eq]
  refine roundWithAccuracy_exact shape (by omega) ?_
  generalize (place - exponent).toNat = count
  rw [← same, zpow_sub₀ two_ne_zero, zpow_natCast]
  push_cast
  field_simp

/-! ### Sums -/

theorem normalize_exact {units : ℤ} (shape : Shaped significand exponent) (zeroSign : Sign)
    (same : (units : ℚ) * 2 ^ place = (signed negative significand : ℚ) * 2 ^ exponent) :
    UnpackedFloat.normalize Format.binary64 units place zeroSign =
      .finite (signOf negative) significand exponent shape.positive := by
  have unit : (0 : ℚ) < 2 ^ place := zpow_pos two_pos place
  have positive : (0 : ℚ) < significand * 2 ^ exponent := by
    have := shape.positive
    positivity
  unfold UnpackedFloat.normalize
  cases negative with
  | false =>
    have above : 0 < units := by
      have whole : 0 < (units : ℚ) * 2 ^ place := same ▸ positive
      exact_mod_cast (mul_pos_iff_of_pos_right unit).mp whole
    lift units to ℕ using above.le
    rw [compare_gt_iff_gt.mpr above]
    exact round_exact shape same
  | true =>
    have negated : ((-units : ℤ) : ℚ) * 2 ^ place = significand * 2 ^ exponent := by
      rw [Int.cast_neg, neg_mul, same]
      simp [signed]
    have above : 0 < -units := by
      exact_mod_cast (mul_pos_iff_of_pos_right unit).mp (negated ▸ positive)
    rw [compare_lt_iff_lt.mpr (neg_pos.mp above)]
    generalize -units = opposite at negated above ⊢
    lift opposite to ℕ using above.le
    exact round_exact shape negated

/-- In smaller units a significand is longer. -/
theorem signed_scaled (negative : Bool) (significand : ℕ) (below : place ≤ exponent) :
    (signed negative (significand * 2 ^ (exponent - place).toNat) : ℚ) * 2 ^ place =
      signed negative significand * 2 ^ exponent := by
  obtain ⟨count, rfl⟩ := Int.le.dest below
  rw [add_sub_cancel_left, Int.toNat_natCast, zpow_add₀ two_ne_zero, zpow_natCast]
  cases negative <;> simp [signed] <;> ring

/-- The sum of two doubles is found exactly if it is a double. -/
theorem add_exact {first second sum : Float} {firstSign secondSign sign : Bool}
    {firstDigits secondDigits digits : ℕ} {firstPlace secondPlace place : ℤ}
    (isFirst : exact first = .finite firstSign firstDigits firstPlace)
    (firstPos : 0 < firstDigits)
    (isSecond : exact second = .finite secondSign secondDigits secondPlace)
    (secondPos : 0 < secondDigits)
    (isSum : exact sum = .finite sign digits place) (sumPos : 0 < digits)
    (same : (signed firstSign firstDigits : ℚ) * 2 ^ firstPlace +
      signed secondSign secondDigits * 2 ^ secondPlace = signed sign digits * 2 ^ place) :
    first + second = sum := by
  have unpacked : UnpackedFloat.add Format.binary64 first.toModel.unpack second.toModel.unpack =
      sum.toModel.unpack := by
    rw [unpack_of_exact isFirst, unpack_of_exact isSecond, unpack_of_exact isSum,
      dif_pos firstPos, dif_pos secondPos, dif_pos sumPos]
    unfold UnpackedFloat.add decreaseExponent
    dsimp only
    simp only [Nat.shiftLeft_eq, apply_signOf]
    refine normalize_exact (shaped_of_exact isSum sumPos) _ ?_
    rw [Int.cast_add, add_mul, signed_scaled _ _ (min_le_left ..),
      signed_scaled _ _ (min_le_right ..), same]
  change Float.ofModel (Float.Model.pack _) = sum
  rw [unpacked, pack_unpack_model]

/-! ### Words -/

theorem roundToInt_exact (same : (significand : ℚ) * 2 ^ exponent = magnitude) :
    roundToInt (signOf negative) significand exponent = signed negative magnitude := by
  unfold roundToInt decreaseExponent shiftToExponent
  dsimp only
  rw [Nat.shiftLeft_eq, sub_zero]
  rcases le_total 0 exponent with above | below
  · obtain ⟨count, rfl⟩ := Int.eq_ofNat_of_zero_le above
    have whole : significand * 2 ^ count = magnitude := by
      rw [zpow_natCast] at same
      exact_mod_cast same
    rw [Int.toNat_natCast, whole, sub_self, sub_self]
    exact apply_signOf negative magnitude
  · obtain ⟨count, isCount⟩ := Int.eq_ofNat_of_zero_le (neg_nonneg.mpr below)
    obtain rfl : exponent = -count := by omega
    have whole : significand = magnitude * 2 ^ count := by
      rw [zpow_neg, zpow_natCast, ← div_eq_mul_inv, div_eq_iff (by positivity)] at same
      exact_mod_cast same
    have none : (-(count : ℤ)).toNat = 0 := by omega
    rw [none, pow_zero, mul_one, Nat.cast_zero, sub_zero, zero_sub, neg_neg, Int.toNat_natCast,
      whole]
    exact (congrArg _ (congrArg (fun mantissa : ExtendedMantissa => (mantissa.mantissa : ℤ))
      (shiftRight_exact magnitude count))).trans (apply_signOf negative magnitude)

/-- A natural number below the number of words is converted as it is, a zero with either sign. -/
theorem toUInt32_exact (finite : exact value = .finite negative significand exponent)
    (same : (significand : ℚ) * 2 ^ exponent = magnitude)
    (sign : negative = false ∨ magnitude = 0) (small : magnitude < 2 ^ 32) :
    value.toUInt32 = UInt32.ofNat magnitude := by
  change UInt32.ofNatClamp (UnpackedFloat.toInt 0 (UInt32.size - 1) value.toModel.unpack).toNat = _
  have rounded : UnpackedFloat.toInt 0 (UInt32.size - 1) value.toModel.unpack = magnitude := by
    rw [unpack_of_exact finite]
    split
    · case isTrue positive =>
      refine (roundToInt_exact same).trans ?_
      rcases sign with rfl | rfl
      · rfl
      · cases negative <;> rfl
    · case isFalse none =>
      obtain rfl := Nat.eq_zero_of_not_pos (mt (pos_iff_of_eq same).mpr none)
      rfl
  rw [rounded, Int.toNat_natCast]
  unfold UInt32.ofNatClamp
  rw [dif_pos (show magnitude < UInt32.size from small), UInt32.ofNatLT_eq_ofNat]

end ScriptEngine.Number
