/-
This file is about the shortest decimal of a double. Whatever the search finds reads back, since it
is found by reading, and so does the exact decimal that stands in for it; and a natural number of
moderate size is found as it is, some of its last zeros being left to the power of ten.
-/

import Mathlib
import ScriptEngine.Number.Integer
import ScriptEngine.Number.Shortest
import ScriptEngine.Proofs.Number.Nearest

namespace ScriptEngine.Number

/-! ### Signs -/

/-- The magnitude that rounding gives has the pattern of a number or of infinity. -/
theorem magnitude_le (numerator denominator : ℕ) :
    (if numerator = 0 then 0 else nearestBits numerator denominator) ≤ 2047 * 2 ^ 52 := by
  split
  · exact Nat.zero_le _
  · exact Nat.min_le_right ..

theorem toBits_ofRatio (negative : Bool) (numerator denominator : ℕ) :
    (ofRatio negative numerator denominator).toBits.toNat =
      (if numerator = 0 then 0 else nearestBits numerator denominator) +
        if negative then 2 ^ 63 else 0 := by
  have bound := magnitude_le numerator denominator
  unfold ofRatio
  generalize (if numerator = 0 then 0 else nearestBits numerator denominator) = magnitude at bound
  have pattern : (if negative then magnitude + Nat.pow 2 63 else magnitude) =
      magnitude + if negative then 2 ^ 63 else 0 := by
    split <;> rfl
  have fits : (magnitude + if negative then 2 ^ 63 else 0) < 2 ^ 64 := by
    split <;> omega
  have bits : (magnitude + if negative then 2 ^ 63 else 0).toUInt64.toNat =
      magnitude + if negative then 2 ^ 63 else 0 := by
    rw [Nat.toUInt64_eq, UInt64.toNat_ofNat']
    exact Nat.mod_eq_of_lt fits
  dsimp only
  rw [pattern, toBits_ofBits, bits]
  rw [bits]
  split <;> omega

/-- Ratios that round to one double do so with a sign in front. -/
theorem ofRatio_sign {numerator denominator other below : ℕ} (negative : Bool)
    (same : ofRatio false numerator denominator = ofRatio false other below) :
    ofRatio negative numerator denominator = ofRatio negative other below := by
  have magnitudes : (if numerator = 0 then 0 else nearestBits numerator denominator) =
      if other = 0 then 0 else nearestBits other below := by
    have bits := congrArg (fun value => value.toBits.toNat) same
    rw [toBits_ofRatio, toBits_ofRatio] at bits
    simpa using bits
  unfold ofRatio
  rw [magnitudes]

theorem negative_of_exact_ofRatio {numerator denominator significand : ℕ} {negative sign : Bool}
    {exponent : ℤ}
    (finite : exact (ofRatio sign numerator denominator) = .finite negative significand exponent) :
    negative = sign := by
  have bound := magnitude_le numerator denominator
  obtain ⟨bits, shape⟩ := bits_of_exact finite
  rw [toBits_ofRatio] at bits
  cases negative <;> cases sign <;> simp at bits ⊢ <;> omega

/-! ### What the search finds -/

theorem toFloat_of_readsAs {magnitude : Float} {digits : ℕ} {place : ℤ}
    (reads : readsAs magnitude digits place = true) :
    Decimal.toFloat ⟨false, digits, place⟩ = magnitude :=
  Float.toBits_inj.mp (eq_of_beq reads)

/-- What `onGrid?` finds reads back, and is one of the two neighbours. -/
theorem of_onGrid? {magnitude : Float} {numerator denominator digits : ℕ} {place : ℤ}
    (found : onGrid? magnitude numerator denominator place = some digits) :
    readsAs magnitude digits place = true ∧
      digits ≤ (gridFloor numerator denominator place).1 + 1 := by
  unfold onGrid? at found
  generalize gridFloor numerator denominator place = floor at found ⊢
  obtain ⟨below, side⟩ := floor
  dsimp only at found ⊢
  cases down : readsAs magnitude below place <;> cases up : readsAs magnitude (below + 1) place <;>
    cases side <;> rw [down, up] at found <;> simp only [Option.some_inj, reduceCtorEq] at found
  all_goals first
    | (subst found; exact ⟨by assumption, by omega⟩)
    | (subst found; split <;> exact ⟨by assumption, by omega⟩)

/-- `coarsest?` gives the coarsest grid that has a hit. -/
theorem of_coarsest? {magnitude : Float} {numerator denominator digits count : ℕ}
    {start place : ℤ}
    (found : coarsest? magnitude numerator denominator count start = some (digits, place)) :
    onGrid? magnitude numerator denominator place = some digits ∧ place ≤ start ∧
      start < place + count := by
  induction count generalizing start with
  | zero => cases found
  | succ count ih =>
    rw [coarsest?] at found
    cases hit : onGrid? magnitude numerator denominator start with
    | some value =>
      rw [hit] at found
      cases found
      exact ⟨hit, le_refl _, by push_cast; omega⟩
    | none =>
      rw [hit] at found
      obtain ⟨there, atMost, within⟩ := ih found
      exact ⟨there, by omega, by push_cast; omega⟩

/-- A hit on a grid that the search covers is found by `coarsest?` there or on a coarser grid. -/
theorem exists_coarsest? {magnitude : Float} {numerator denominator digits count : ℕ}
    {start place : ℤ} (hit : onGrid? magnitude numerator denominator place = some digits)
    (atMost : place ≤ start) (within : start < place + count) :
    ∃ found coarser, coarsest? magnitude numerator denominator count start =
      some (found, coarser) ∧ place ≤ coarser := by
  induction count generalizing start with
  | zero =>
    push_cast at within
    omega
  | succ count ih =>
    rw [coarsest?]
    cases here : onGrid? magnitude numerator denominator start with
    | some value => exact ⟨value, start, rfl, atMost⟩
    | none =>
      have lower : place ≠ start := by
        rintro rfl
        rw [hit] at here
        cases here
      push_cast at within
      exact ih (by omega) (by omega)

/-! ### Reading back -/

theorem exactDecimal_eq (significand : ℕ) (exponent : ℤ) :
    (((exactDecimal significand exponent).1 *
        10 ^ (exactDecimal significand exponent).2.toNat : ℕ) : ℚ) /
      (10 ^ (-(exactDecimal significand exponent).2).toNat : ℕ) = significand * 2 ^ exponent := by
  unfold exactDecimal
  simp only [Nat.pow_eq]
  rcases le_total 0 exponent with nonneg | nonpos
  · obtain ⟨power, rfl⟩ := Int.eq_ofNat_of_zero_le nonneg
    have least : min (power : ℤ) 0 = 0 := by omega
    have none : (-(power : ℤ)).toNat = 0 := by omega
    rw [least, none]
    simp
  · obtain ⟨power, same⟩ := Int.eq_ofNat_of_zero_le (show 0 ≤ -exponent by omega)
    have isPower : exponent = -(power : ℤ) := by omega
    subst isPower
    have least : min (-(power : ℤ)) 0 = -(power : ℤ) := by omega
    have none : (-(power : ℤ)).toNat = 0 := by omega
    have some : (- -(power : ℤ)).toNat = power := by omega
    rw [least, none, some, zpow_neg, zpow_natCast]
    have ten : (10 : ℚ) ^ power = 2 ^ power * 5 ^ power := by
      rw [← mul_pow]
      norm_num
    push_cast
    rw [ten]
    field_simp

/-- The `shortest` decimal of a positive double is the double again, with either sign. -/
theorem toFloat_shortest {value : Float} {negative : Bool} {significand : ℕ} {exponent : ℤ}
    (finite : exact value = .finite negative significand exponent) :
    Decimal.toFloat ⟨negative, (shortest significand exponent).1,
      (shortest significand exponent).2⟩ = value := by
  unfold shortest
  dsimp only
  split
  · case h_1 found hit =>
    obtain ⟨digits, place⟩ := found
    have reads := toFloat_of_readsAs (of_onGrid? (of_coarsest? hit).1).1
    have same : ofRatio negative (digits * Nat.pow 10 place.toNat) (Nat.pow 10 (-place).toNat) =
        ofBinary negative significand exponent := ofRatio_sign negative reads
    exact same.trans (ofBinary_of_exact finite)
  · refine ofRatio_of_exact finite (Nat.pow_pos (by norm_num)) ?_
    exact exactDecimal_eq significand exponent

/-! ### Bounds -/

theorem numerator_lt {value : Float} {negative : Bool} {significand : ℕ} {exponent : ℤ}
    (finite : exact value = .finite negative significand exponent) :
    significand * 2 ^ exponent.toNat < 10 ^ 1024 := by
  obtain ⟨-, shape⟩ := bits_of_exact finite
  have small : significand < 2 ^ 53 := by omega
  have power : 2 ^ exponent.toNat ≤ 2 ^ 971 :=
    pow_le_pow_right₀ (by norm_num) (show exponent.toNat ≤ 971 by omega)
  calc significand * 2 ^ exponent.toNat ≤ significand * 2 ^ 971 := Nat.mul_le_mul_left _ power
    _ < 2 ^ 53 * 2 ^ 971 := Nat.mul_lt_mul_of_pos_right small (pow_pos (by norm_num) 971)
    _ = 2 ^ 1024 := by rw [← pow_add]
    _ ≤ 10 ^ 1024 := pow_le_pow_left₀ (by norm_num) (by norm_num) 1024

/-- The digits and the power of ten of a `shortest` decimal, within crude bounds. -/
theorem shortest_bounds {value : Float} {negative : Bool} {significand : ℕ} {exponent : ℤ}
    (finite : exact value = .finite negative significand exponent) (nonzero : significand ≠ 0) :
    (shortest significand exponent).1 < 10 ^ 3000 ∧
      -2000 ≤ (shortest significand exponent).2 ∧ (shortest significand exponent).2 ≤ 2000 := by
  have numerator := numerator_lt finite
  obtain ⟨-, shape⟩ := bits_of_exact finite
  have highest : significand.log2 < 53 := (Nat.log2_lt nonzero).mpr (by omega)
  have roomy : ∀ power < 3000, 10 ^ power + 1 < 10 ^ 3000 := by
    intro power below
    have more : 10 ^ (power + 1) ≤ 10 ^ 3000 := pow_le_pow_right₀ (by norm_num) below
    rw [pow_succ] at more
    have positive : 0 < 10 ^ power := Nat.pow_pos (by norm_num)
    omega
  unfold shortest
  dsimp only
  split
  · case h_1 found hit =>
    obtain ⟨digits, place⟩ := found
    obtain ⟨there, atMost, within⟩ := of_coarsest? hit
    have neighbour := (of_onGrid? there).2
    have floor : (gridFloor (significand * Nat.pow 2 exponent.toNat)
        (Nat.pow 2 (-exponent).toNat) place).1 ≤
        significand * 2 ^ exponent.toNat * 10 ^ (-place).toNat := Nat.div_le_self ..
    have low : -1000 ≤ place := by push_cast at within; omega
    have zeros : 10 ^ (-place).toNat ≤ 10 ^ 1000 :=
      pow_le_pow_right₀ (by norm_num) (show (-place).toNat ≤ 1000 by omega)
    have size : significand * 2 ^ exponent.toNat * 10 ^ (-place).toNat ≤ 10 ^ (1024 + 1000) := by
      rw [pow_add]
      exact Nat.mul_le_mul numerator.le zeros
    have spare := roomy (1024 + 1000) (by norm_num)
    exact ⟨by dsimp only; omega, by dsimp only; omega, by dsimp only; omega⟩
  · unfold exactDecimal
    simp only [Nat.pow_eq]
    have fives : 5 ^ (-exponent).toNat ≤ 10 ^ 1074 :=
      (Nat.pow_le_pow_left (by norm_num) _).trans
        (pow_le_pow_right₀ (by norm_num) (show (-exponent).toNat ≤ 1074 by omega))
    have size : significand * 2 ^ exponent.toNat * 5 ^ (-exponent).toNat ≤ 10 ^ (1024 + 1074) := by
      rw [pow_add]
      exact Nat.mul_le_mul numerator.le fives
    have spare := roomy (1024 + 1074) (by norm_num)
    exact ⟨by omega, by omega, by omega⟩

/-! ### Natural numbers -/

/-- The double with a significand whose highest bit is set. -/
theorem exists_exact_of_normal {significand : ℕ} {exponent : ℤ} (normal : 2 ^ 52 ≤ significand)
    (small : significand < 2 ^ 53) (least : -1074 ≤ exponent) (most : exponent ≤ 971) :
    ∃ value : Float, exact value = .finite false significand exponent := by
  generalize isPattern : (exponent + 1075).toNat * 2 ^ 52 + (significand - 2 ^ 52) = pattern
  have bits : pattern.toUInt64.toNat = pattern := by
    rw [Nat.toUInt64_eq, UInt64.toNat_ofNat']
    exact Nat.mod_eq_of_lt (by omega)
  have field : pattern / Nat.pow 2 52 % Nat.pow 2 11 = (exponent + 1075).toNat := by
    simp only [Nat.pow_eq]
    omega
  have fraction : pattern % Nat.pow 2 52 = significand - 2 ^ 52 := by
    simp only [Nat.pow_eq]
    omega
  have sign : (pattern / Nat.pow 2 63 % 2 == 1) = false := by
    simp only [Nat.pow_eq]
    exact beq_false_of_ne (by omega)
  refine ⟨Float.ofBits pattern.toUInt64, ?_⟩
  unfold exact
  rw [toBits_ofBits (by rw [bits]; omega), bits]
  have whole : 2 ^ 52 + (significand - 2 ^ 52) = significand := by omega
  have unbiased : ((exponent + 1075).toNat : ℤ) - 1075 = exponent := by omega
  unfold Exact.ofBits
  rw [field, fraction, sign]
  dsimp only
  rw [if_neg (by omega), if_neg (by omega), Nat.pow_eq, whole, unbiased]

/-- A natural number that fits a significand is a double exactly. -/
theorem exists_exact_ofNat {value : ℕ} (positive : 0 < value) (small : value < 2 ^ 53) :
    ∃ (significand : ℕ) (exponent : ℤ), exact (ofNat value) = .finite false significand exponent ∧
      (significand : ℚ) * 2 ^ exponent = value := by
  have highest : value.log2 < 53 := (Nat.log2_lt positive.ne').mpr small
  have lower : 2 ^ value.log2 ≤ value := Nat.log2_self_le positive.ne'
  have upper : value < 2 ^ (value.log2 + 1) := Nat.lt_log2_self
  obtain ⟨shift, isShift⟩ := Nat.exists_eq_add_of_le (Nat.le_of_lt_succ highest)
  have whole : 2 ^ value.log2 * 2 ^ shift = 2 ^ 52 := by
    rw [← pow_add, ← isShift]
  have normal : 2 ^ 52 ≤ value * 2 ^ shift := by
    rw [← whole]
    exact Nat.mul_le_mul_right _ lower
  have fits : value * 2 ^ shift < 2 ^ 53 := by
    have scaled : value * 2 ^ shift < 2 ^ (value.log2 + 1) * 2 ^ shift :=
      Nat.mul_lt_mul_of_pos_right upper (Nat.pow_pos (by norm_num))
    rw [pow_succ, Nat.mul_right_comm, whole] at scaled
    exact scaled
  have least : -1074 ≤ -(shift : ℤ) := by omega
  have most : -(shift : ℤ) ≤ 971 := by omega
  obtain ⟨double, isExact⟩ := exists_exact_of_normal normal fits least most
  have same : ((value * 2 ^ shift : ℕ) : ℚ) * 2 ^ (-(shift : ℤ)) = value := by
    rw [zpow_neg, zpow_natCast]
    push_cast
    field_simp
  refine ⟨_, _, ?_, same⟩
  rw [ofNat, ofRatio_of_exact isExact Nat.one_pos (by rw [same]; simp)]
  exact isExact

theorem exact_ofNat_zero : exact (ofNat 0) = .finite false 0 (-1074) := by
  have bits := toBits_ofRatio false 0 1
  unfold exact ofNat
  rw [bits]
  rfl

/-- Natural numbers that fit a significand are told apart. -/
theorem ofNat_inj {first second : ℕ} (firstSmall : first < 2 ^ 53) (secondSmall : second < 2 ^ 53)
    (same : ofNat first = ofNat second) : first = second := by
  have positive : ∀ {value : ℕ}, 0 < value → value < 2 ^ 53 → ofNat 0 ≠ ofNat value := by
    intro value positive small same
    obtain ⟨significand, exponent, isExact, isValue⟩ := exists_exact_ofNat positive small
    rw [← same, exact_ofNat_zero] at isExact
    cases isExact
    rw [Nat.cast_zero, zero_mul] at isValue
    exact positive.ne (by exact_mod_cast isValue)
  rcases Nat.eq_zero_or_pos first with rfl | firstPos
  · by_contra differs
    exact positive (Nat.pos_of_ne_zero (Ne.symm differs)) secondSmall same
  rcases Nat.eq_zero_or_pos second with rfl | secondPos
  · exact absurd same.symm (positive firstPos firstSmall)
  obtain ⟨significand, exponent, isExact, isValue⟩ := exists_exact_ofNat firstPos firstSmall
  obtain ⟨other, place, otherExact, isOther⟩ := exists_exact_ofNat secondPos secondSmall
  rw [same, otherExact] at isExact
  cases isExact
  rw [isValue] at isOther
  exact_mod_cast isOther

theorem toFloat_natural (digits zeros : ℕ) :
    Decimal.toFloat ⟨false, digits, zeros⟩ = ofNat (digits * 10 ^ zeros) := by
  have none : (-(zeros : ℤ)).toNat = 0 := by omega
  have all : (zeros : ℤ).toNat = zeros := by omega
  unfold Decimal.toFloat ofNat
  dsimp only
  rw [none, all]
  rfl

theorem gridFloor_natural_le (numerator denominator zeros : ℕ) :
    (gridFloor numerator denominator zeros).1 * (denominator * 10 ^ zeros) ≤ numerator := by
  have none : (-(zeros : ℤ)).toNat = 0 := by omega
  have all : (zeros : ℤ).toNat = zeros := by omega
  unfold gridFloor
  dsimp only
  rw [none, all]
  exact (Nat.div_mul_le_self ..).trans (Nat.mul_one numerator).le

/-- A natural number is found on the grid of the natural numbers. -/
theorem onGrid?_ofNat (value : ℕ) {denominator : ℕ} (positive : 0 < denominator) :
    onGrid? (ofNat value) (value * denominator) denominator 0 = some value := by
  have floor : gridFloor (value * denominator) denominator 0 = (value, .lt) := by
    have quotient : value * denominator * 1 / (denominator * 1) = value := by
      rw [Nat.mul_one, Nat.mul_one, Nat.mul_div_cancel _ positive]
    have side : compare (2 * (value * denominator * 1 % (denominator * 1))) (denominator * 1) =
        .lt := by
      rw [Nat.mul_one, Nat.mul_one, Nat.mul_mod_left, Nat.compare_eq_lt]
      omega
    exact Prod.ext quotient side
  have reads : readsAs (ofNat value) value 0 = true := by
    have same := toFloat_natural value 0
    rw [pow_zero, Nat.mul_one, Nat.cast_zero] at same
    unfold readsAs
    rw [same]
    exact beq_self_eq_true _
  unfold onGrid?
  rw [floor]
  dsimp only
  rw [reads]
  cases readsAs (ofNat value) (value + 1) 0 <;> rfl

/-- The highest place of a natural number below `2 ^ 24`. -/
theorem leading_bounds {value significand : ℕ} {exponent : ℤ} (positive : 0 < value)
    (small : value < 2 ^ 24) (isValue : (significand : ℚ) * 2 ^ exponent = value) :
    -1 < exponent + significand.log2 ∧ exponent + significand.log2 < 24 := by
  have significandPos : 0 < significand := by
    refine Nat.pos_of_ne_zero ?_
    rintro rfl
    rw [Nat.cast_zero, zero_mul] at isValue
    exact positive.ne (by exact_mod_cast isValue)
  obtain ⟨reached, missed⟩ := log2_bounds significandPos
  constructor
  · have above : (2 : ℚ) ^ (0 : ℤ) < 2 ^ ((significand.log2 : ℤ) + 1 + exponent) := by
      rw [zpow_zero, zpow_add₀ two_ne_zero]
      calc (1 : ℚ) ≤ value := by exact_mod_cast positive
        _ = significand * 2 ^ exponent := isValue.symm
        _ < 2 ^ ((significand.log2 : ℤ) + 1) * 2 ^ exponent := by gcongr
    have := (zpow_lt_zpow_iff_right₀ one_lt_two).mp above
    omega
  · have below : (2 : ℚ) ^ ((significand.log2 : ℤ) + exponent) < 2 ^ (24 : ℤ) := by
      rw [zpow_add₀ two_ne_zero]
      calc (2 : ℚ) ^ (significand.log2 : ℤ) * 2 ^ exponent ≤ significand * 2 ^ exponent := by gcongr
        _ = value := isValue
        _ < 2 ^ (24 : ℤ) := by exact_mod_cast small
    have := (zpow_lt_zpow_iff_right₀ one_lt_two).mp below
    omega

/-- The multiple of a power of ten that `shortest` finds for a natural number is that number. -/
theorem shortest_ofNat {value significand : ℕ} {exponent : ℤ} (positive : 0 < value)
    (small : value < 2 ^ 24) (isValue : (significand : ℚ) * 2 ^ exponent = value) :
    ∃ digits zeros : ℕ, shortest significand exponent = (digits, (zeros : ℤ)) ∧
      digits * 10 ^ zeros = value := by
  obtain ⟨low, high⟩ := leading_bounds positive small isValue
  have ratio := binary_eq_ratio significand exponent
  rw [isValue] at ratio
  unfold shortest
  simp only [Nat.pow_eq]
  generalize significand * 2 ^ exponent.toNat = top at ratio ⊢
  have bottomPos : 0 < 2 ^ (-exponent).toNat := by positivity
  generalize 2 ^ (-exponent).toNat = bottom at ratio bottomPos ⊢
  obtain rfl : top = value * bottom := by
    rw [div_eq_iff (by positivity)] at ratio
    exact_mod_cast ratio
  have magnitude : ofRatio false (value * bottom) bottom = ofNat value :=
    ofRatio_congr bottomPos Nat.one_pos (Nat.mul_one _) false
  rw [magnitude]
  generalize isStart : (exponent + significand.log2 + 1) * 30103 / 100000 + 2 = start
  obtain ⟨digits, place, found, nonneg⟩ := exists_coarsest? (onGrid?_ofNat value bottomPos)
    (show 0 ≤ start by omega) (show start < 0 + (22 : ℕ) by omega)
  obtain ⟨there, atMost, -⟩ := of_coarsest? found
  obtain ⟨zeros, rfl⟩ := Int.eq_ofNat_of_zero_le nonneg
  refine ⟨digits, zeros, by rw [found], ?_⟩
  obtain ⟨reads, neighbour⟩ := of_onGrid? there
  have fewZeros : 10 ^ zeros ≤ 10 ^ 9 := pow_le_pow_right₀ (by norm_num) (by omega)
  have floor : (gridFloor (value * bottom) bottom zeros).1 * 10 ^ zeros ≤ value := by
    have quotient := gridFloor_natural_le (value * bottom) bottom zeros
    rw [Nat.mul_comm bottom, ← Nat.mul_assoc] at quotient
    exact Nat.le_of_mul_le_mul_right quotient bottomPos
  have size : digits * 10 ^ zeros ≤ value + 10 ^ zeros :=
    calc digits * 10 ^ zeros
        ≤ ((gridFloor (value * bottom) bottom zeros).1 + 1) * 10 ^ zeros :=
          Nat.mul_le_mul_right _ neighbour
      _ ≤ value + 10 ^ zeros := by
          rw [Nat.add_mul, Nat.one_mul]
          exact Nat.add_le_add_right floor _
  have same := (toFloat_natural digits zeros).symm.trans (toFloat_of_readsAs reads)
  refine ofNat_inj ?_ (by omega) same
  norm_num at small fewZeros ⊢
  omega

/-! ### Counts -/

/-- A size is the natural number that it is the double of. -/
theorem eq_ofNat_of_size? {numerator size : ℕ} (isSize : size? (ofNat numerator) = some size) :
    ofNat numerator = ofNat size ∧ size < 2 ^ 24 := by
  unfold size? integer? at isSize
  cases finite : exact (ofNat numerator) with
  | notANumber =>
    rw [finite] at isSize
    cases isSize
  | infinite negative =>
    rw [finite] at isSize
    cases isSize
  | finite negative significand exponent =>
    rw [finite] at isSize
    obtain rfl := negative_of_exact_ofRatio finite
    simp only [Nat.pow_eq, signed, Bool.false_eq_true, if_false, integerPart] at isSize
    have ratio := binary_eq_ratio significand exponent
    have bottomPos : 0 < 2 ^ (-exponent).toNat := by positivity
    generalize significand * 2 ^ exponent.toNat = top at isSize ratio
    generalize 2 ^ (-exponent).toNat = bottom at isSize ratio bottomPos
    by_cases divides : top % bottom = 0
    · rw [if_pos divides] at isSize
      dsimp only at isSize
      split at isSize
      · case isTrue inside =>
        have isQuotient : top / bottom = size := by
          rw [Int.toNat_natCast] at isSize
          exact Option.some_inj.mp isSize
        have bound : ((top / bottom : ℕ) : ℤ) < (2 ^ 24 : ℕ) := inside.2
        have isTop : top = size * bottom := by
          rw [← isQuotient, Nat.div_mul_cancel (Nat.dvd_of_mod_eq_zero divides)]
        have isValue : ((size : ℕ) / (1 : ℕ) : ℚ) = significand * 2 ^ exponent := by
          rw [← ratio, isTop]
          push_cast
          field_simp
        exact ⟨(ofRatio_of_exact finite Nat.one_pos isValue).symm, by omega⟩
      · cases isSize
    · rw [if_neg divides] at isSize
      cases isSize

/-- A natural number below the bound is a size, by `size?`. -/
theorem size?_ofNat {size : ℕ} (small : size < 2 ^ 24) : size? (ofNat size) = some size := by
  obtain ⟨significand, exponent, isExact, isValue⟩ : ∃ (significand : ℕ) (exponent : ℤ),
      exact (ofNat size) = .finite false significand exponent ∧
        (significand : ℚ) * 2 ^ exponent = size := by
    rcases Nat.eq_zero_or_pos size with rfl | positive
    · exact ⟨0, -1074, exact_ofNat_zero, by rw [Nat.cast_zero, zero_mul]⟩
    · exact exists_exact_ofNat positive (small.trans (by norm_num))
  have bottomPos : 0 < 2 ^ (-exponent).toNat := by positivity
  have isTop : significand * 2 ^ exponent.toNat = size * 2 ^ (-exponent).toNat := by
    have ratio := (binary_eq_ratio significand exponent).trans isValue
    rw [div_eq_iff (by exact_mod_cast bottomPos.ne')] at ratio
    exact_mod_cast ratio
  have isInteger : integer? (ofNat size) = some (size : ℤ) := by
    unfold integer? integerPart
    rw [isExact]
    simp only [Nat.pow_eq]
    rw [isTop, if_pos (Nat.mul_mod_left ..), Nat.mul_div_cancel _ bottomPos]
    rfl
  have inside : 0 ≤ (size : ℤ) ∧ (size : ℤ) < sizeBound :=
    ⟨Int.natCast_nonneg size, by exact_mod_cast small⟩
  unfold size?
  rw [isInteger]
  dsimp only
  rw [if_pos inside, Int.toNat_natCast]

/-! ### Finite doubles -/

section Patterns

open Float.Model Float.Model.UnpackedFloat

/-- A double with an exact value is no infinity. -/
theorem isInf_eq_false {value : Float} {negative : Bool} {significand : ℕ} {exponent : ℤ}
    (finite : exact value = .finite negative significand exponent) : value.isInf = false := by
  have field : value.toBits.toNat / 2 ^ 52 % 2 ^ 11 ≠ 2047 := by
    intro special
    unfold exact Exact.ofBits at finite
    simp only [Nat.pow_eq] at finite
    rw [if_pos special] at finite
    split at finite <;> cases finite
  have ordinary : @unpackExponent Format.binary64 value.toBits.toBitVec ≠ -1 := by
    intro special
    refine field ((toNat_exponent value.toBits).symm.trans ?_)
    rw [special]
    rfl
  change (unpack Format.binary64 value.toBits.toBitVec).isInf = false
  unfold UnpackedFloat.unpack
  dsimp only
  split
  · case isTrue special => exact absurd special ordinary
  split
  · split <;> rfl
  · rfl

end Patterns

end ScriptEngine.Number
