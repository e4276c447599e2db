/-
This file is about numbers as they are laid out. Every layout spells a number in the same parts,
digits in front of a point and behind it and a power of ten, and leaves out parts that are empty.
A spelling is read as the decimal of its digits, and what a layout writes for a finite double is
read as that double.
-/

import Mathlib
import ScriptEngine.Number.Layout
import ScriptEngine.Proofs.Number.Literals
import ScriptEngine.Proofs.Number.Shortest

namespace ScriptEngine.Number

open Decimal (isDigit digitsValue exponentValue)
open Text (digitsValue_ofNat isDigit_of_mem_ofNat)

/-! ### Spellings -/

/-- A number without its sign, by its parts: the digits in front of the point, the ones behind it,
and the sign and the digits of the power of ten if there is one. -/
structure Spelling where
  whole : Text
  fraction : Text := []
  power : Option (Bool × Text) := none

namespace Spelling

/-- The text of a power of ten. -/
def powerText : Option (Bool × Text) → Text
  | none => []
  | some (negative, digits) => 101 :: (if negative then 45 else 43) :: digits

/-- The text of the digits behind the point, with the point. -/
def fractionText (fraction : Text) : Text :=
  if fraction = [] then [] else 46 :: fraction

/-- The text of a spelling. -/
def text (spelling : Spelling) : Text :=
  spelling.whole ++ (fractionText spelling.fraction ++ powerText spelling.power)

/-- The power of ten that a spelling names. -/
def exponent (spelling : Spelling) : ℤ :=
  match spelling.power with
  | none => 0
  | some (negative, digits) =>
    if negative then -(exponentValue digits : ℤ) else exponentValue digits

/-- The parts of a spelling consist of digits, and there are some where there have to be. -/
structure Proper (spelling : Spelling) : Prop where
  whole : ∀ byte ∈ spelling.whole, isDigit byte
  filled : spelling.whole ≠ []
  fraction : ∀ byte ∈ spelling.fraction, isDigit byte
  power : ∀ negative digits, spelling.power = some (negative, digits) →
    digits ≠ [] ∧ ∀ byte ∈ digits, isDigit byte

variable {spelling : Spelling}

/-- The parts of a spelling as those of a literal. -/
def parts (negative : Bool) (spelling : Spelling) : Parts where
  negative := negative
  whole := spelling.whole
  fraction := spelling.fraction
  below := (spelling.power.map Prod.fst).getD false
  power := (spelling.power.map Prod.snd).getD []

theorem decimal_parts (negative : Bool) (spelling : Spelling) :
    (spelling.parts negative).decimal =
      ⟨negative, digitsValue (spelling.whole ++ spelling.fraction),
        spelling.exponent - spelling.fraction.length⟩ := by
  obtain ⟨whole, fraction, _ | ⟨below, digits⟩⟩ := spelling <;> rfl

theorem isMantissa (proper : spelling.Proper) :
    IsMantissa (spelling.whole ++ fractionText spelling.fraction) spelling.whole
      spelling.fraction := by
  have isWhole : Text.IsDigits spelling.whole := ⟨proper.filled, proper.whole⟩
  unfold fractionText
  split
  · case isTrue none =>
    rw [none, List.append_nil]
    exact .whole isWhole
  · have pointed := IsMantissa.pointed isWhole proper.fraction
    rwa [List.append_assoc] at pointed

theorem isPower (proper : spelling.Proper) :
    IsPower (powerText spelling.power) ((spelling.power.map Prod.fst).getD false)
      ((spelling.power.map Prod.snd).getD []) := by
  cases isPower : spelling.power with
  | none => exact .none
  | some power =>
    obtain ⟨below, digits⟩ := power
    cases below with
    | false => exact .power (.inl rfl) .plus (proper.power _ _ isPower)
    | true => exact .power (.inl rfl) .minus (proper.power _ _ isPower)

/-- A spelling that is `Proper` is a decimal literal with its parts, by `IsLiteral`. -/
theorem isLiteral_text (negative : Bool) (proper : spelling.Proper) :
    IsLiteral (Layout.withSign negative spelling.text) (spelling.parts negative) := by
  have unsigned : spelling.text =
      spelling.whole ++ fractionText spelling.fraction ++ powerText spelling.power :=
    (List.append_assoc ..).symm
  rw [unsigned]
  have signed : ∀ {sign : Text}, IsSign sign negative → IsLiteral
      (sign ++ (spelling.whole ++ fractionText spelling.fraction) ++ powerText spelling.power)
      (spelling.parts negative) :=
    fun isSign => .intro isSign (isMantissa proper) (isPower proper)
  cases negative with
  | false => exact signed .none
  | true => exact signed .minus

/-- A spelling that is `Proper` is read as the decimal of its digits. -/
theorem read?_text (negative : Bool) (proper : spelling.Proper) :
    Decimal.read? (Layout.withSign negative spelling.text) =
      some ⟨negative, digitsValue (spelling.whole ++ spelling.fraction),
        spelling.exponent - spelling.fraction.length⟩ :=
  read?_eq_some_iff.mpr ⟨_, isLiteral_text negative proper, decimal_parts negative spelling⟩

end Spelling

/-! ### What layouts write -/

namespace Layout

/-- A text of digits that `positional` spells with a point so that the last digit has a place. -/
theorem exists_spelling_positional {digits : Text} (isDigits : ∀ byte ∈ digits, isDigit byte)
    (filled : digits ≠ []) (place : ℤ) :
    ∃ spelling : Spelling, spelling.Proper ∧ positional digits place = spelling.text ∧
      spelling.power = none ∧
      digitsValue (spelling.whole ++ spelling.fraction) = digitsValue digits * 10 ^ place.toNat ∧
      (spelling.fraction.length : ℤ) = (-place).toNat := by
  have length := List.length_pos_iff.mpr filled
  have zeroDigits : ∀ {count : ℕ}, ∀ byte ∈ List.replicate count (48 : UInt8), isDigit byte := by
    intro count byte member
    rw [List.eq_of_mem_replicate member]
    rfl
  unfold positional
  split
  · case isTrue nonneg =>
    refine ⟨{ whole := digits ++ List.replicate place.toNat 48 }, ⟨?_, ?_, by simp, by simp⟩,
      by simp [Spelling.text, Spelling.fractionText, Spelling.powerText], rfl, ?_, ?_⟩
    · exact List.forall_mem_append.mpr ⟨isDigits, zeroDigits⟩
    · simp [filled]
    · simp [Text.digitsValue_append_zeros]
    · simp only [List.length_nil]
      omega
  · case isFalse negative =>
    have none : place.toNat = 0 := by omega
    dsimp only
    split
    · case isTrue inside =>
      have behind : digits.drop (digits.length - (-place).toNat) ≠ [] := by
        rw [Ne, List.drop_eq_nil_iff]
        omega
      refine ⟨{ whole := digits.take (digits.length - (-place).toNat)
                fraction := digits.drop (digits.length - (-place).toNat) }, ⟨?_, ?_, ?_, by simp⟩,
        ?_, rfl, ?_, ?_⟩
      · exact fun byte member => isDigits byte (List.mem_of_mem_take member)
      · rw [Ne, List.take_eq_nil_iff]
        rintro (none | empty)
        · omega
        · exact filled empty
      · exact fun byte member => isDigits byte (List.mem_of_mem_drop member)
      · simp [Spelling.text, Spelling.fractionText, Spelling.powerText, behind]
      · rw [List.take_append_drop, none, pow_zero, Nat.mul_one]
      · rw [List.length_drop]
        omega
    · case isFalse outside =>
      refine ⟨{ whole := [48]
                fraction := List.replicate ((-place).toNat - digits.length) 48 ++ digits },
        ⟨List.forall_mem_singleton.mpr rfl, by simp, ?_, by simp⟩, ?_, rfl, ?_, ?_⟩
      · exact List.forall_mem_append.mpr ⟨zeroDigits, isDigits⟩
      · simp [Spelling.text, Spelling.fractionText, Spelling.powerText, filled]
      · rw [none, pow_zero, Nat.mul_one, ← List.append_assoc]
        exact (Text.digitsValue_zeros_append 1 _).trans (Text.digitsValue_zeros_append _ _)
      · rw [List.length_append, List.length_replicate]
        omega

/-- A text of digits that `scientific` spells with one digit in front of the point. -/
theorem exists_spelling_scientific {digits : Text} (isDigits : ∀ byte ∈ digits, isDigit byte)
    (filled : digits ≠ []) (width : ℕ) {leading : ℤ} (small : leading.natAbs < 100000) :
    ∃ spelling : Spelling, spelling.Proper ∧ scientific width digits leading = spelling.text ∧
      spelling.exponent = leading ∧ spelling.whole ++ spelling.fraction = digits ∧
      spelling.fraction.length + 1 = digits.length := by
  obtain ⟨first, rest, rfl⟩ := List.exists_cons_of_ne_nil filled
  refine ⟨{ whole := [first]
            fraction := rest
            power := some (decide (leading < 0), padded width (Text.ofNat leading.natAbs)) },
    ⟨?_, by simp, ?_, ?_⟩, ?_, ?_, rfl, rfl⟩
  · exact List.forall_mem_singleton.mpr (isDigits first List.mem_cons_self)
  · exact fun byte member => isDigits byte (List.mem_cons_of_mem _ member)
  · rintro negative digits ⟨⟩
    unfold padded
    refine ⟨by simp [Text.ofNat_ne_nil], List.forall_mem_append.mpr ⟨?_, isDigit_of_mem_ofNat⟩⟩
    intro byte member
    rw [List.eq_of_mem_replicate member]
    rfl
  · cases rest <;>
      simp [scientific, Spelling.text, Spelling.fractionText, Spelling.powerText]
  · unfold Spelling.exponent padded
    dsimp only
    rw [Text.exponentValue_zeros_append, Text.exponentValue_ofNat small]
    split
    · case isTrue negative =>
      have := of_decide_eq_true negative
      omega
    · case isFalse nonneg =>
      have := of_decide_eq_false (Bool.eq_false_iff.mpr nonneg)
      omega

/-- What a layout writes for a decimal is a spelling that is read as the same double. -/
theorem exists_spelling_digits (layout : Layout) {digits : ℕ} {place : ℤ}
    (few : digits < 10 ^ 3000) (least : -2000 ≤ place) (most : place ≤ 2000) :
    ∃ spelling : Spelling, spelling.Proper ∧ layout.digits digits place = spelling.text ∧
      ∀ negative, Decimal.toFloat ⟨negative, digitsValue (spelling.whole ++ spelling.fraction),
        spelling.exponent - spelling.fraction.length⟩ =
          Decimal.toFloat ⟨negative, digits, place⟩ := by
  have length := List.length_pos_iff.mpr (Text.ofNat_ne_nil digits)
  have short := (Text.length_ofNat_le (show 0 < 3000 by norm_num)).mpr few
  clear few
  unfold Layout.digits
  dsimp only
  split
  · obtain ⟨spelling, proper, text, none, value, behind⟩ :=
      exists_spelling_positional isDigit_of_mem_ofNat (Text.ofNat_ne_nil digits) place
    refine ⟨spelling, proper, text, fun negative => ?_⟩
    have power : spelling.exponent - (spelling.fraction.length : ℤ) = -((-place).toNat : ℤ) := by
      rw [behind, Spelling.exponent, none]
      exact Int.zero_sub _
    have before : (-((-place).toNat : ℤ)).toNat = 0 := by omega
    have after : (- -((-place).toNat : ℤ)).toNat = (-place).toNat := by omega
    rw [power, value, digitsValue_ofNat]
    unfold Decimal.toFloat
    dsimp only
    rw [before, after]
    exact congrArg (ofRatio negative · _) (Nat.mul_one _)
  · obtain ⟨spelling, proper, text, power, parts, behind⟩ :=
      exists_spelling_scientific isDigit_of_mem_ofNat (Text.ofNat_ne_nil digits)
        layout.exponentWidth
        (show (place + (Text.ofNat digits).length - 1).natAbs < 100000 by omega)
    refine ⟨spelling, proper, text, fun negative => ?_⟩
    have same : spelling.exponent - (spelling.fraction.length : ℤ) = place := by
      rw [power]
      omega
    rw [same, parts, digitsValue_ofNat]

/-- What a layout writes for a finite double is a spelling that is read as that double; only the
sign of a zero may be missing. -/
theorem exists_spelling_write (layout : Layout) {value : Float} {negative : Bool}
    {significand : ℕ} {exponent : ℤ}
    (finite : exact value = .finite negative significand exponent) :
    ∃ spelling : Spelling, spelling.Proper ∧
      layout.write value =
        withSign (negative && (layout.signedZero || decide (significand ≠ 0))) spelling.text ∧
      Decimal.toFloat ⟨negative, digitsValue (spelling.whole ++ spelling.fraction),
        spelling.exponent - spelling.fraction.length⟩ = value := by
  unfold write
  rw [finite]
  dsimp only
  split
  · case isTrue zero =>
    have isZero : Decimal.toFloat ⟨negative, 0, 0⟩ = value := by
      refine ofRatio_of_exact finite Nat.one_pos ?_
      rw [zero]
      simp
    refine ⟨{ whole := [48] }, ⟨List.forall_mem_singleton.mpr rfl, by simp, by simp, by simp⟩, ?_,
      isZero⟩
    rw [zero, decide_eq_false (not_not.mpr rfl), Bool.or_false]
    rfl
  · case isFalse nonzero =>
    obtain ⟨few, least, most⟩ := shortest_bounds finite nonzero
    obtain ⟨spelling, proper, text, reads⟩ := exists_spelling_digits layout few least most
    refine ⟨spelling, proper, ?_, (reads negative).trans (toFloat_shortest finite)⟩
    rw [decide_eq_true nonzero, Bool.or_true, Bool.and_true]
    exact congrArg (withSign negative) text

/-- A finite double is read back, by `Decimal.read?`, from what listings write for it. -/
theorem read?_listing {value : Float} {negative : Bool} {significand : ℕ} {exponent : ℤ}
    (finite : exact value = .finite negative significand exponent) :
    ∃ decimal, Decimal.read? (listing.write value) = some decimal ∧ decimal.toFloat = value := by
  obtain ⟨spelling, proper, text, reads⟩ := exists_spelling_write listing finite
  rw [show listing.signedZero = true from rfl, Bool.true_or, Bool.and_true] at text
  exact ⟨_, by rw [text, spelling.read?_text negative proper], reads⟩

/-! ### Natural numbers -/

/-- A natural number of moderate size is written as its numeral. -/
theorem write_ofNat {number : ℕ} (small : number < 2 ^ 24) :
    value.write (ofNat number) = Text.ofNat number := by
  rcases Nat.eq_zero_or_pos number with rfl | positive
  · unfold write
    rw [exact_ofNat_zero]
    rfl
  obtain ⟨significand, exponent, finite, isNumber⟩ :=
    exists_exact_ofNat positive (small.trans (by norm_num))
  obtain ⟨digits, zeros, found, whole⟩ := shortest_ofNat positive small isNumber
  have nonzero : significand ≠ 0 := by
    rintro rfl
    rw [Nat.cast_zero, zero_mul] at isNumber
    exact positive.ne (by exact_mod_cast isNumber)
  have digitsPos : 0 < digits := by
    refine Nat.pos_of_ne_zero ?_
    rintro rfl
    omega
  have numeral : Text.ofNat number = Text.ofNat digits ++ List.replicate zeros 48 := by
    rw [← whole, Text.ofNat_mul_pow digitsPos]
  have length : (Text.ofNat digits).length + zeros ≤ 8 := by
    have short := (Text.length_ofNat_le (show 0 < 8 by norm_num)).mpr
      (small.trans (show 2 ^ 24 < 10 ^ 8 by norm_num))
    rwa [numeral, List.length_append, List.length_replicate] at short
  have filled := List.length_pos_iff.mpr (Text.ofNat_ne_nil digits)
  unfold write
  rw [finite]
  dsimp only
  rw [if_neg nonzero, found]
  dsimp only [withSign, Layout.digits, value]
  rw [if_neg (by decide), if_pos (by omega), positional, if_pos (by omega), Int.toNat_natCast,
    numeral]

/-! ### Numbers that are written as integers -/

theorem read?_of_isDigits {sign digits : Text} {negative : Bool} (isSign : IsSign sign negative)
    (isDigits : Text.IsDigits digits) :
    Decimal.read? (sign ++ digits) = some ⟨negative, digitsValue digits, 0⟩ := by
  have isLiteral : IsLiteral (sign ++ digits ++ []) { negative, whole := digits, fraction := [] } :=
    .intro isSign (.whole isDigits) .none
  rw [List.append_nil] at isLiteral
  refine read?_eq_some_iff.mpr ⟨_, isLiteral, ?_⟩
  simp [Parts.decimal, Parts.digits, Parts.exponentOf, exponentValue]

/-- An integer is read as a decimal without an exponent. -/
theorem read?_of_denotes {numeral : Text} {value : ℤ} (denotes : Text.Denotes numeral value) :
    ∃ negative, Decimal.read? numeral = some ⟨negative, value.natAbs, 0⟩ ∧
      (negative = true → value ≤ 0) := by
  cases denotes with
  | unsigned isDigits => exact ⟨false, read?_of_isDigits .none isDigits, nofun⟩
  | positive isDigits => exact ⟨false, read?_of_isDigits .plus isDigits, nofun⟩
  | negative isDigits =>
    refine ⟨true, ?_, fun _ => by omega⟩
    rw [Int.natAbs_neg]
    exact read?_of_isDigits .minus isDigits

/-- A number that is written as a natural number is written like that number, if it `Denotes` one.
Only a negative zero is another one. -/
theorem write_ofNat_of_denotes {number : Float} {count : ℕ}
    (denotes : Text.Denotes (value.write number) count) :
    value.write (ofNat count) = value.write number := by
  obtain ⟨sign, read, notPositive⟩ := read?_of_denotes denotes
  rw [Int.natAbs_natCast] at read
  cases finite : exact number with
  | notANumber =>
    rw [write, finite] at read
    cases (read.symm.trans rfl : some _ = none)
  | infinite negative =>
    rw [write, finite] at read
    cases negative <;> cases (read.symm.trans rfl : some _ = none)
  | finite negative significand exponent =>
    obtain ⟨spelling, proper, text, same⟩ := exists_spelling_write value finite
    have found := read
    rw [text, spelling.read?_text _ proper] at found
    obtain ⟨isSign, isCount, isExponent⟩ := Decimal.mk.inj (Option.some.inj found)
    rw [isCount, isExponent] at same
    cases negative with
    | false =>
      have isNumber : ofNat count = number :=
        (congrArg (ofRatio false · 1) (Nat.mul_one count).symm).trans same
      rw [isNumber]
    | true =>
      by_cases zero : significand = 0
      · have isZero : value.write number = "0" := by
          rw [write, finite]
          exact if_pos zero
        rw [isZero] at read ⊢
        cases (Decimal.mk.inj (Option.some.inj read)).2.1
        exact write_ofNat (by decide)
      · rw [decide_eq_true zero, Bool.or_true, Bool.and_true] at isSign
        have none := notPositive isSign.symm
        cases Int.natCast_nonpos_iff.mp none
        rw [← same] at finite
        cases finite
        exact absurd rfl zero

end Layout

end ScriptEngine.Number
