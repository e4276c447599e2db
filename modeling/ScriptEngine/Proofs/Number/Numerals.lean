/-
This file says which texts denote numbers, and which. White space around apart, these are the empty
text, the names of the infinities and the decimal literals, and none of them denotes what is not a
number. A literal out of range denotes an infinity or a zero; only where thousands of digits make up
for an exponent that is not counted in full does it denote something else.
-/

import Mathlib
import ScriptEngine.Proofs.Number.Literals
import ScriptEngine.Proofs.Number.Range
import ScriptEngine.Proofs.Text.Trimming

namespace ScriptEngine.Number

open Decimal (isDigit digitsValue exponentValue)
open Text (IsDigits Blanks isBlank ofChars trim)

/-- A text without white space around denotes a number. -/
inductive IsNumeral : Text → Float → Prop
  | empty : IsNumeral [] 0
  | infinity {name : Text} (isName : name = "Infinity" ∨ name = "+Infinity") :
      IsNumeral name (infinity false)
  | negativeInfinity : IsNumeral "-Infinity" (Number.infinity true)
  | literal {text : Text} {parts : Parts} (isLiteral : IsLiteral text parts) :
      IsNumeral text parts.value

/-! ### Reading numerals -/

theorem ne_nil_of_isMantissa {mantissa whole fraction : Text}
    (isMantissa : IsMantissa mantissa whole fraction) : mantissa ≠ [] := by
  cases isMantissa with
  | whole isDigits => exact isDigits.1
  | pointed isDigits _ => simp [isDigits.1]
  | fraction isDigits => simp [isDigits.1]

theorem ne_nil_of_isLiteral {text : Text} {parts : Parts} (isLiteral : IsLiteral text parts) :
    text ≠ [] := by
  obtain ⟨-, isMantissa, -⟩ := isLiteral
  simp [ne_nil_of_isMantissa isMantissa]

/-- No literal has a letter of a name. -/
theorem ne_name_of_isLiteral {text name : Text} {parts : Parts} (isLiteral : IsLiteral text parts)
    (letter : (73 : UInt8) ∈ name) : text ≠ name := by
  rintro rfl
  cases isLiteralByte_of_mem isLiteral 73 letter

theorem unbarred_of_isLiteral {text : Text} {parts : Parts} (isLiteral : IsLiteral text parts) :
    Unbarred text :=
  fun byte member => (of_isLiteralByte (isLiteralByte_of_mem isLiteral byte member)).2.2

/-- What `ofTrimmed?` reads without white space around is what `IsNumeral` says. -/
theorem ofTrimmed?_eq_some_iff {text : Text} {value : Float} :
    ofTrimmed? text = some value ↔ IsNumeral text value := by
  constructor
  · intro read
    unfold ofTrimmed? at read
    split at read
    · case isTrue none =>
      cases read
      exact none ▸ .empty
    · split at read
      · case isTrue isName =>
        cases read
        exact .infinity isName
      · split at read
        · case isTrue isName =>
          cases read
          exact isName ▸ .negativeInfinity
        · split at read
          · cases read
          · case isFalse noBar =>
            have unbarred : Unbarred text := by simpa [Unbarred] using noBar
            rw [value?_of_unbarred unbarred] at read
            obtain ⟨decimal, isRead, rfl⟩ := Option.map_eq_some_iff.mp read
            obtain ⟨parts, isLiteral, rfl⟩ := read?_eq_some_iff.mp isRead
            exact .literal isLiteral
  · intro isNumeral
    cases isNumeral with
    | empty => rfl
    | infinity isName => rcases isName with rfl | rfl <;> rfl
    | negativeInfinity => rfl
    | @literal text parts isLiteral =>
      have unbarred := unbarred_of_isLiteral isLiteral
      have noBar : ¬ text.any barred.contains = true := by simpa [Unbarred] using unbarred
      have noName := fun {name : Text} (letter : (73 : UInt8) ∈ name) =>
        ne_name_of_isLiteral isLiteral letter
      unfold ofTrimmed?
      rw [if_neg (ne_nil_of_isLiteral isLiteral),
        if_neg (not_or.mpr ⟨noName (by decide), noName (by decide)⟩), if_neg (noName (by decide)),
        if_neg noBar, value?_of_unbarred unbarred,
        read?_eq_some_iff.mpr ⟨parts, isLiteral, rfl⟩]
      rfl

/-- No white space is in a text that `IsNumeral`. -/
theorem exists_inked {text : Text} {value : Float} (isNumeral : IsNumeral text value) :
    ∃ chars, text = ofChars chars ∧ ∀ char ∈ chars, isBlank char = false := by
  have named : ∀ name : Text, name.all (fun byte => decide (byte < 128) &&
      !isBlank (Char.ofNat byte.toNat)) = true →
        ∀ byte ∈ name, byte < 128 ∧ isBlank (Char.ofNat byte.toNat) = false := by
    intro name each byte member
    simpa only [Bool.and_eq_true, Bool.not_eq_true', decide_eq_true_eq] using
      List.all_eq_true.mp each byte member
  have bytes : ∀ byte ∈ text, byte < 128 ∧ isBlank (Char.ofNat byte.toNat) = false := by
    cases isNumeral with
    | empty => exact List.forall_mem_nil _
    | infinity isName => rcases isName with rfl | rfl <;> exact named _ rfl
    | negativeInfinity => exact named _ rfl
    | literal isLiteral =>
      intro byte member
      have plain := of_isLiteralByte (isLiteralByte_of_mem isLiteral byte member)
      exact ⟨plain.1, plain.2.1⟩
  refine ⟨Text.asciiChars text,
    (Text.ofChars_asciiChars fun byte member => (bytes byte member).1).symm, ?_⟩
  intro char member
  obtain ⟨byte, among, rfl⟩ := List.mem_map.mp member
  exact (bytes byte among).2

theorem ofText?_eq_some_iff {text : Text} {value : Float} :
    ofText? text = some value ↔
      ∃ before middle after, Blanks before ∧ Blanks after ∧
        text = ofChars before ++ middle ++ ofChars after ∧ IsNumeral middle value := by
  constructor
  · intro read
    obtain ⟨before, after, areBefore, areAfter, whole⟩ := Text.exists_blanks text
    exact ⟨before, trim text, after, areBefore, areAfter, whole, ofTrimmed?_eq_some_iff.mp read⟩
  · rintro ⟨before, middle, after, areBefore, areAfter, rfl, isNumeral⟩
    obtain ⟨chars, rfl, inked⟩ := exists_inked isNumeral
    unfold ofText?
    rw [Text.trim_blanks areBefore areAfter inked]
    exact ofTrimmed?_eq_some_iff.mpr isNumeral

theorem ofText?_of_isNumeral {text : Text} {value : Float} (isNumeral : IsNumeral text value) :
    ofText? text = some value :=
  ofText?_eq_some_iff.mpr ⟨[], text, [], List.forall_mem_nil _, List.forall_mem_nil _,
    (List.append_nil _).symm, isNumeral⟩

/-- What is read as a decimal denotes the double nearest to that. -/
theorem isNumeral_of_read? {text : Text} {decimal : Decimal}
    (read : Decimal.read? text = some decimal) : IsNumeral text decimal.toFloat := by
  obtain ⟨parts, isLiteral, rfl⟩ := read?_eq_some_iff.mp read
  exact .literal isLiteral

/-! ### What literals denote -/

theorem exponentValue_snoc (digits : Text) (byte : UInt8) :
    exponentValue (digits ++ [byte]) =
      if exponentValue digits < 10000 then exponentValue digits * 10 + (byte.toNat - 48)
      else exponentValue digits := by
  unfold exponentValue
  rw [List.foldl_append, List.foldl_cons, List.foldl_nil]

/-- `exponentValue` counts an exponent in full, or both what is counted of it and the whole of it
are large. -/
theorem exponentValue_eq_or {digits : Text} (isDigits : ∀ byte ∈ digits, isDigit byte = true) :
    exponentValue digits = digitsValue digits ∨
      10000 ≤ exponentValue digits ∧ 100000 ≤ digitsValue digits := by
  induction digits using List.reverseRecOn with
  | nil => exact .inl rfl
  | append_singleton front byte ih =>
    obtain ⟨others, last⟩ := List.forall_mem_append.mp isDigits
    obtain ⟨digit, small, rfl⟩ := Text.exists_digitByte (last byte (List.mem_singleton_self _))
    rw [exponentValue_snoc, Text.digitsValue_snoc front small, Text.toNat_digitByte digit small]
    rcases ih others with same | large
    · rw [same]
      split <;> omega
    · rw [if_neg (by omega)]
      omega

theorem digitsValue_lt {digits : Text} (isDigits : ∀ byte ∈ digits, isDigit byte = true) :
    digitsValue digits < 10 ^ digits.length := by
  induction digits using List.reverseRecOn with
  | nil => exact Nat.one_pos
  | append_singleton front byte ih =>
    obtain ⟨others, last⟩ := List.forall_mem_append.mp isDigits
    obtain ⟨digit, small, rfl⟩ := Text.exists_digitByte (last byte (List.mem_singleton_self _))
    have fewer := ih others
    rw [Text.digitsValue_snoc front small, List.length_append, List.length_singleton, pow_succ]
    omega

theorem isDigit_of_isMantissa {mantissa whole fraction : Text}
    (isMantissa : IsMantissa mantissa whole fraction) :
    ∀ byte ∈ whole ++ fraction, isDigit byte = true := by
  rw [List.forall_mem_append]
  cases isMantissa with
  | whole isDigits => exact ⟨isDigits.2, List.forall_mem_nil _⟩
  | pointed isDigits others => exact ⟨isDigits.2, others⟩
  | fraction isDigits => exact ⟨List.forall_mem_nil _, isDigits.2⟩

theorem isDigit_of_isPower {power digits : Text} {below : Bool}
    (isPower : IsPower power below digits) : ∀ byte ∈ digits, isDigit byte = true := by
  cases isPower with
  | none => exact List.forall_mem_nil _
  | power _ _ isDigits => exact isDigits.2

theorem isDigit_of_isLiteral {text : Text} {parts : Parts} (isLiteral : IsLiteral text parts) :
    (∀ byte ∈ parts.digits, isDigit byte = true) ∧ ∀ byte ∈ parts.power, isDigit byte = true := by
  obtain ⟨-, isMantissa, isPower⟩ := isLiteral
  exact ⟨isDigit_of_isMantissa isMantissa, isDigit_of_isPower isPower⟩

/-- The ratio that a decimal is rounded from. -/
theorem decimal_ratio (digits : ℕ) (exponent : ℤ) :
    (((digits * Nat.pow 10 exponent.toNat : ℕ) : ℚ) / (Nat.pow 10 (-exponent).toNat : ℕ)) =
      digits * 10 ^ exponent := by
  simp only [Nat.pow_eq]
  push_cast
  rcases le_or_gt 0 exponent with above | below
  · obtain ⟨places, rfl⟩ := Int.eq_ofNat_of_zero_le above
    simp
  · obtain ⟨places, isPlaces⟩ := Int.eq_ofNat_of_zero_le (neg_nonneg.mpr below.le)
    obtain rfl : exponent = -places := by omega
    simp [div_eq_mul_inv]

theorem two_pow_le : (2 : ℚ) ^ 1075 ≤ 10 ^ 400 := by
  calc (2 : ℚ) ^ 1075 = (2 ^ 43) ^ 25 := by rw [← pow_mul]
    _ ≤ (10 ^ 16) ^ 25 := by gcongr; norm_num
    _ = 10 ^ 400 := by rw [← pow_mul]

theorem underflow_lt_overflow : underflow < overflow := by
  have small : underflow ≤ 1 := zpow_le_one_of_nonpos₀ one_le_two (by decide)
  have unit : (1 : ℚ) ≤ 2 ^ (971 : ℤ) := one_le_zpow₀ one_le_two (by decide)
  have large : 1 < overflow := by
    rw [overflow_eq]
    refine lt_of_lt_of_le ?_ (mul_le_mul_of_nonneg_left unit ?_)
    all_goals norm_num
  exact small.trans_lt large

/-- A literal is out of range if its exponent is much larger than its places are many. -/
theorem overflow_le {digits places exponent : ℕ} (positive : 0 < digits) (few : places ≤ 9600)
    (far : 10000 ≤ exponent) : overflow ≤ (digits : ℚ) * 10 ^ ((exponent : ℤ) - places) := by
  have atLeast : (1 : ℚ) ≤ digits := by exact_mod_cast positive
  calc overflow ≤ 2 ^ 1024 := sub_le_self _ (pow_nonneg zero_le_two _)
    _ ≤ 2 ^ 1075 := pow_le_pow_right₀ one_le_two (Nat.le_add_right 1024 51)
    _ ≤ 10 ^ 400 := two_pow_le
    _ = 1 * 10 ^ (400 : ℤ) := by rw [one_mul, zpow_ofNat]
    _ ≤ digits * 10 ^ ((exponent : ℤ) - places) := by
      gcongr
      · norm_num
      · omega

/-- A literal is as good as zero if its exponent is much further below zero than its digits are
many. -/
theorem le_underflow (places : ℕ) {digits count exponent : ℕ} (small : digits < 10 ^ count)
    (few : count ≤ 9600) (far : 10000 ≤ exponent) :
    (digits : ℚ) * 10 ^ (-(exponent : ℤ) - places) ≤ underflow := by
  have atMost : (digits : ℚ) ≤ 10 ^ (count : ℤ) := by
    rw [zpow_natCast]
    exact_mod_cast small.le
  calc (digits : ℚ) * 10 ^ (-(exponent : ℤ) - places)
      ≤ 10 ^ (count : ℤ) * 10 ^ (-(exponent : ℤ) - places) := by gcongr
    _ = 10 ^ (count + (-(exponent : ℤ) - places)) := (zpow_add₀ (by norm_num) _ _).symm
    _ ≤ 10 ^ (-400 : ℤ) := by
      gcongr
      · norm_num
      · omega
    _ = (10 ^ 400)⁻¹ := by rw [zpow_neg, zpow_ofNat]
    _ ≤ (2 ^ 1075)⁻¹ := inv_anti₀ (pow_pos two_pos _) two_pow_le
    _ = underflow := by rw [underflow, zpow_neg, zpow_ofNat]

namespace Parts

variable {parts : Parts}

/-- The magnitude that is rounded to the double which a literal denotes. -/
def counted (parts : Parts) : ℚ :=
  parts.decimal.digits * 10 ^ parts.decimal.exponent

theorem value_eq_infinity_iff (parts : Parts) :
    parts.value = infinity parts.negative ↔ overflow ≤ parts.counted := by
  unfold value counted Decimal.toFloat
  rw [← decimal_ratio]
  exact ofRatio_eq_infinity_iff (Nat.pow_pos (by decide)) _

theorem value_eq_zero_iff (parts : Parts) :
    parts.value = zero parts.negative ↔ parts.counted ≤ underflow := by
  unfold value counted Decimal.toFloat
  rw [← decimal_ratio]
  exact ofRatio_eq_zero_iff (Nat.pow_pos (by decide)) _

/-- The exponent of a literal is counted in full, or its digits are too few to make up for what
`counted` leaves out. -/
def Countable (parts : Parts) : Prop :=
  parts.digits.length ≤ 9600 ∨ digitsValue parts.power < 100000

/-- A literal that is `Countable` is out of range just when what is `counted` of it is. -/
theorem counted_range {text : Text} (isLiteral : IsLiteral text parts)
    (countable : parts.Countable) :
    (overflow ≤ parts.counted ↔ overflow ≤ parts.magnitude) ∧
      (parts.counted ≤ underflow ↔ parts.magnitude ≤ underflow) := by
  obtain ⟨areDigits, arePower⟩ := isDigit_of_isLiteral isLiteral
  have counted : parts.counted = digitsValue parts.digits *
      10 ^ (parts.exponentOf (exponentValue parts.power) - parts.fraction.length) := rfl
  rw [counted, magnitude]
  rcases exponentValue_eq_or arePower with same | ⟨much, more⟩
  · rw [same]
    exact ⟨Iff.rfl, Iff.rfl⟩
  · have few : parts.digits.length ≤ 9600 := countable.resolve_right (not_lt.mpr more)
    have places : parts.fraction.length ≤ 9600 := by
      rw [digits, List.length_append] at few
      omega
    have small := digitsValue_lt areDigits
    rcases Nat.eq_zero_or_pos (digitsValue parts.digits) with zero | positive
    · rw [zero, Nat.cast_zero, zero_mul, zero_mul]
      exact ⟨Iff.rfl, Iff.rfl⟩
    · have far : 10000 ≤ digitsValue parts.power := (by decide : 10000 ≤ 100000).trans more
      unfold exponentOf
      cases parts.below with
      | false =>
        have large := overflow_le positive places much
        have larger := overflow_le positive places far
        exact ⟨iff_of_true large larger, iff_of_false (underflow_lt_overflow.trans_le large).not_ge
          (underflow_lt_overflow.trans_le larger).not_ge⟩
      | true =>
        have little := le_underflow parts.fraction.length small few much
        have less := le_underflow parts.fraction.length small few far
        exact ⟨iff_of_false (little.trans_lt underflow_lt_overflow).not_ge
          (less.trans_lt underflow_lt_overflow).not_ge, iff_of_true little less⟩

end Parts

theorem nan_eq : Float.nan = notANumber := rfl

/-- What is not a number is denoted by no text that `IsNumeral`. -/
theorem isNaN_of_isNumeral {text : Text} {value : Float} (isNumeral : IsNumeral text value) :
    value.isNaN = false := by
  have other : value ≠ notANumber := by
    cases isNumeral with
    | empty => exact ofRatio_ne_notANumber false 0 1
    | infinity => exact infinity_ne_notANumber false
    | negativeInfinity => exact infinity_ne_notANumber true
    | literal => exact ofRatio_ne_notANumber _ _ _
  rw [Float.isNaN_eq_decide_eq_nan, nan_eq]
  exact decide_eq_false other

/-! ### Texts that denote numbers -/

/-- The texts that denote numbers are the empty one, the names of the infinities and the decimal
literals, `IsNumeral`, with white space around; none denotes what is not a number. A literal denotes
an infinity or a zero just when what is `counted` of it is out of range, and where it is
`Countable`, that is, unless it has thousands of digits and a longer exponent than is counted, that
is when its `magnitude` is out of range. -/
theorem ofText?_denotes (text : Text) :
    (∀ value, ofText? text = some value ↔
      ∃ before middle after, Blanks before ∧ Blanks after ∧
        text = ofChars before ++ middle ++ ofChars after ∧ IsNumeral middle value) ∧
      (∀ value, ofText? text = some value → value.isNaN = false) ∧
      ∀ parts, IsLiteral (trim text) parts → ofText? text = some parts.value ∧
        (parts.value = infinity parts.negative ↔ overflow ≤ parts.counted) ∧
        (parts.value = zero parts.negative ↔ parts.counted ≤ underflow) ∧
        (parts.Countable → (overflow ≤ parts.counted ↔ overflow ≤ parts.magnitude) ∧
          (parts.counted ≤ underflow ↔ parts.magnitude ≤ underflow)) := by
  refine ⟨fun value => ofText?_eq_some_iff, ?_, ?_⟩
  · intro value read
    exact isNaN_of_isNumeral (ofTrimmed?_eq_some_iff.mp read)
  · intro parts isLiteral
    exact ⟨ofTrimmed?_eq_some_iff.mpr (.literal isLiteral), parts.value_eq_infinity_iff,
      parts.value_eq_zero_iff, Parts.counted_range isLiteral⟩

/-- A literal far below all doubles, with a blank in front of it and a line break behind. -/
theorem ofText?_farBelow :
    ofText? " -.5E-012345\n" = some (zero true) ∧ (zero true).isNaN = false := by
  have isLiteral : IsLiteral (trim " -.5E-012345\n") ⟨true, [], "5", true, "012345"⟩ := by
    have sides : trim " -.5E-012345\n" =
        Text.ofString "-" ++ (Text.ofString "." ++ Text.ofString "5") ++
          (Text.ofString "E" ++ Text.ofString "-" ++ Text.ofString "012345") := rfl
    rw [sides]
    exact .intro .minus (.fraction ⟨List.cons_ne_nil _ _, List.all_eq_true.mp rfl⟩)
      (.power (.inr rfl) .minus ⟨List.cons_ne_nil _ _, List.all_eq_true.mp rfl⟩)
  obtain ⟨-, number, literals⟩ := ofText?_denotes " -.5E-012345\n"
  obtain ⟨read, -, isZero, range⟩ := literals _ isLiteral
  have small := le_underflow 1 (show 5 < 10 ^ 1 by decide) (by decide)
    (show 10000 ≤ 12345 by decide)
  have isLittle := (range (.inl (show 1 ≤ 9600 by decide))).2.mpr small
  rw [isZero.mpr isLittle] at read
  exact ⟨read, number _ read⟩

/-- A literal of many digits. Its exponent is counted up to the fifth digit only, and what is left
of it is no larger than its many places. -/
def manyPlaces : Parts where
  negative := false
  whole := "0"
  fraction := List.replicate 9990 48 ++ Text.ofString "1"
  power := "100001"

namespace manyPlaces

/-- The literal as it is written. -/
def text : Text :=
  Text.ofString "0." ++ manyPlaces.fraction ++ Text.ofString "e100001"

theorem length_fraction : manyPlaces.fraction.length = 9991 := by
  rw [manyPlaces, List.length_append, List.length_replicate]
  rfl

theorem digitsValue_digits : digitsValue manyPlaces.digits = 1 := by
  show digitsValue (List.replicate 1 48 ++ (List.replicate 9990 48 ++ Text.ofString "1")) = 1
  rw [Text.digitsValue_zeros_append, Text.digitsValue_zeros_append]
  rfl

theorem isLiteral : IsLiteral manyPlaces.text manyPlaces := by
  have digits : ∀ byte ∈ manyPlaces.fraction, isDigit byte = true := by
    rw [manyPlaces, List.forall_mem_append]
    exact ⟨fun byte member => List.eq_of_mem_replicate member ▸ rfl, List.all_eq_true.mp rfl⟩
  have parted : ∀ fraction : Text, Text.ofString "0." ++ fraction ++ Text.ofString "e100001" =
      [] ++ (Text.ofString "0" ++ Text.ofString "." ++ fraction) ++
        (Text.ofString "e" ++ [] ++ Text.ofString "100001") := fun _ => rfl
  rw [text, parted]
  exact .intro .none (.pointed ⟨List.cons_ne_nil _ _, List.all_eq_true.mp rfl⟩ digits)
    (.power (.inl rfl) .none ⟨List.cons_ne_nil _ _, List.all_eq_true.mp rfl⟩)

theorem overflow_le_magnitude : overflow ≤ manyPlaces.magnitude := by
  have exponent : manyPlaces.exponentOf (digitsValue manyPlaces.power) = 100001 := rfl
  have far : (100001 - (9991 : ℕ) : ℤ) = (90010 : ℕ) - (0 : ℕ) := by norm_num
  rw [Parts.magnitude, digitsValue_digits, exponent, length_fraction, far]
  exact overflow_le Nat.one_pos (Nat.zero_le _) (by norm_num)

theorem value_eq : manyPlaces.value = ofNat (1 * 10 ^ 9) := by
  have exponent : manyPlaces.exponentOf (exponentValue manyPlaces.power) = 10000 := rfl
  have decimal : manyPlaces.decimal = ⟨false, 1, (9 : ℕ)⟩ := by
    rw [Parts.decimal, digitsValue_digits, exponent, length_fraction]
    rfl
  rw [Parts.value, decimal]
  exact toFloat_natural 1 9

end manyPlaces

/-- The literal `manyPlaces` is out of range, and does not denote an infinity or a zero. -/
theorem ofText?_manyPlaces :
    IsLiteral manyPlaces.text manyPlaces ∧ overflow ≤ manyPlaces.magnitude ∧
      ofText? manyPlaces.text = some (ofNat (1 * 10 ^ 9)) ∧
      ∀ negative, ofNat (1 * 10 ^ 9) ≠ infinity negative ∧ ofNat (1 * 10 ^ 9) ≠ zero negative := by
  have read := ofText?_of_isNumeral (.literal manyPlaces.isLiteral)
  rw [manyPlaces.value_eq] at read
  have bits : (ofNat (1 * 10 ^ 9)).toBits = 0x41CDCD6500000000 := rfl
  refine ⟨manyPlaces.isLiteral, manyPlaces.overflow_le_magnitude, read, fun negative =>
    ⟨ne_of_apply_ne Float.toBits ?_, ne_of_apply_ne Float.toBits ?_⟩⟩
  all_goals
    rw [bits]
    cases negative <;> decide

end ScriptEngine.Number
