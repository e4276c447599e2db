/-
This file is about the text of a number and its way back. The text of a number is what the layout of
values writes: out of the text with an exponent either the one without comes, or a zero goes that
filled the exponent up. Read again, that text denotes the number it was written for, and so whatever
has been read from a text is read once more as the same number.
-/

import Mathlib
import ScriptEngine.Proofs.Number.Layout
import ScriptEngine.Proofs.Number.Numerals
import ScriptEngine.Value.Conversion

namespace ScriptEngine

open Number
open Number.Decimal (isDigit digitsValue)
open Text (isDigit_of_mem_ofNat)

/-! ### Replacing the first occurrence -/

namespace Text

/-- Nothing is replaced in front of the first byte that the replaced text starts with. -/
theorem replaceFirst_append {first : UInt8} {front : Text} (none : first ∉ front)
    (old new rest : Text) :
    replaceFirst (first :: old) new (front ++ rest) =
      front ++ replaceFirst (first :: old) new rest := by
  induction front with
  | nil => rfl
  | cons byte others ih =>
    have other : (first :: old).isPrefixOf (byte :: (others ++ rest)) = false := by
      rw [List.isPrefixOf, beq_false_of_ne (List.ne_of_not_mem_cons none), Bool.false_and]
    rw [List.cons_append, replaceFirst, if_neg (by rw [other]; exact Bool.false_ne_true),
      ih (List.not_mem_of_not_mem_cons none), List.cons_append]

theorem replaceFirst_of_notMem {first : UInt8} {text : Text} (none : first ∉ text)
    (old new : Text) : replaceFirst (first :: old) new text = text := by
  have whole := replaceFirst_append none old new []
  rw [List.append_nil] at whole
  exact whole.trans (List.append_nil _)

/-- Nothing is replaced in a text that could only start with the replaced one and does not. -/
theorem replaceFirst_of_not_isPrefixOf (first : UInt8) (old new : Text) {text : Text}
    (other : (first :: old).isPrefixOf (first :: text) = false) (none : first ∉ text) :
    replaceFirst (first :: old) new (first :: text) = first :: text := by
  rw [replaceFirst, if_neg (by rw [other]; exact Bool.false_ne_true),
    replaceFirst_of_notMem none]

end Text

/-! ### Layouts of numbers -/

namespace Number.Layout

theorem padded_one (value : ℕ) : padded 1 (Text.ofNat value) = Text.ofNat value := by
  have filled := List.length_pos_iff.mpr (Text.ofNat_ne_nil value)
  rw [padded, Nat.sub_eq_zero_of_le filled]
  rfl

/-- A numeral of two digits at least has one zero in front by `padded` if it would be shorter, and
starts with another digit if not. -/
theorem padded_two (value : ℕ) :
    padded 2 (Text.ofNat value) = 48 :: Text.ofNat value ∨
      padded 2 (Text.ofNat value) = Text.ofNat value ∧ (Text.ofNat value).head? ≠ some 48 := by
  rcases lt_or_ge value 10 with small | large
  · left
    rw [Text.ofNat_of_lt small]
    rfl
  · right
    have long : 2 ≤ (Text.ofNat value).length := by
      by_contra short
      have few : value < 10 ^ 1 := (Text.length_ofNat_le Nat.one_pos).mp (by omega)
      omega
    rw [padded, Nat.sub_eq_zero_of_le long]
    exact ⟨rfl, Text.head?_ofNat (by omega)⟩

/-- The sign in front of an exponent. -/
def exponentSign (leading : ℤ) : UInt8 :=
  if leading < 0 then 45 else 43

theorem mark_notMem_ofNat (value : ℕ) : (101 : UInt8) ∉ Text.ofNat value := fun member => by
  cases isDigit_of_mem_ofNat 101 member

/-- In front of its exponent a text has no other letter `e`, whatever the width of the exponent. -/
theorem exists_front (negative : Bool) (found : ℕ) (leading : ℤ) :
    ∃ front : Text, (101 : UInt8) ∉ front ∧ ∀ width,
      withSign negative (scientific width (Text.ofNat found) leading) =
        front ++ 101 :: exponentSign leading :: padded width (Text.ofNat leading.natAbs) := by
  have digits := mark_notMem_ofNat found
  obtain ⟨mantissa, none, written⟩ : ∃ mantissa : Text, (101 : UInt8) ∉ mantissa ∧ ∀ width,
      scientific width (Text.ofNat found) leading =
        mantissa ++ 101 :: exponentSign leading :: padded width (Text.ofNat leading.natAbs) := by
    generalize Text.ofNat found = text at digits
    match text with
    | [] => exact ⟨[], digits, fun width => rfl⟩
    | [digit] => exact ⟨[digit], digits, fun width => rfl⟩
    | digit :: second :: rest =>
      refine ⟨digit :: 46 :: second :: rest, ?_, fun width => rfl⟩
      simpa using digits
  cases negative with
  | false => exact ⟨mantissa, none, written⟩
  | true =>
    refine ⟨45 :: mantissa, ?_, fun width => congrArg (List.cons 45) (written width)⟩
    simpa using none

/-- The exponent is what stands behind the letter. -/
theorem integer?_exponent (leading : ℤ) (width : ℕ) :
    Text.integer? (exponentSign leading :: padded width (Text.ofNat leading.natAbs)) =
      some leading := by
  have isDigits : Text.IsDigits (padded width (Text.ofNat leading.natAbs)) := by
    refine ⟨by simp [padded, Text.ofNat_ne_nil], List.forall_mem_append.mpr
      ⟨fun byte member => ?_, isDigit_of_mem_ofNat⟩⟩
    rw [List.eq_of_mem_replicate member]
    rfl
  have value : digitsValue (padded width (Text.ofNat leading.natAbs)) = leading.natAbs := by
    rw [padded, Text.digitsValue_zeros_append, Text.digitsValue_ofNat]
  rw [Text.integer?_eq_some_iff]
  unfold exponentSign
  split
  · case isTrue below =>
    have denotes := Text.Denotes.negative isDigits
    rwa [value, Int.ofNat_natAbs_of_nonpos below.le, neg_neg] at denotes
  · case isFalse above =>
    have denotes := Text.Denotes.positive isDigits
    rwa [value, Int.natAbs_of_nonneg (not_lt.mp above)] at denotes

/-- Dropping a zero that fills an exponent up leaves the exponent without it. -/
theorem replaceFirst_exponent (leading : ℤ) :
    Text.replaceFirst "e+0" "e+" (Text.replaceFirst "e-0" "e-"
      (101 :: exponentSign leading :: padded 2 (Text.ofNat leading.natAbs))) =
        101 :: exponentSign leading :: padded 1 (Text.ofNat leading.natAbs) := by
  have others := mark_notMem_ofNat leading.natAbs
  have signed : ∀ sign ∈ [(43 : UInt8), 45],
      (101 : UInt8) ∉ (sign :: Text.ofNat leading.natAbs) := by
    intro sign member
    rw [List.mem_cons, not_or]
    refine ⟨?_, others⟩
    rintro rfl
    revert member
    decide
  rw [padded_one]
  rcases padded_two leading.natAbs with filled | ⟨same, noZero⟩
  · rw [filled]
    unfold exponentSign
    split
    · exact Text.replaceFirst_of_not_isPrefixOf 101 [43, 48] "e+" rfl (signed 45 (by simp))
    · have kept : Text.replaceFirst "e-0" "e-" (101 :: 43 :: 48 :: Text.ofNat leading.natAbs) =
          101 :: 43 :: 48 :: Text.ofNat leading.natAbs :=
        Text.replaceFirst_of_not_isPrefixOf 101 [45, 48] "e-" rfl (by simpa using others)
      rw [kept]
      rfl
  · have sign : exponentSign leading ∈ [(43 : UInt8), 45] := by
      unfold exponentSign
      split <;> decide
    have other : ∀ first : UInt8, List.isPrefixOf [101, first, 48]
        (101 :: exponentSign leading :: Text.ofNat leading.natAbs) = false := by
      intro first
      generalize Text.ofNat leading.natAbs = digits at noZero
      cases digits with
      | nil => simp [List.isPrefixOf]
      | cons digit rest =>
        have differs : (48 == digit) = false := beq_false_of_ne fun zero => noZero (by simp [zero])
        simp [List.isPrefixOf, differs]
    have kept := fun new first => Text.replaceFirst_of_not_isPrefixOf 101 [first, 48] new
      (other first) (signed _ sign)
    rw [same]
    exact (congrArg (Text.replaceFirst "e+0" "e+") (kept "e-" 45)).trans (kept "e+" 43)

/-- From the text with an exponent the exponent is read, and it is written without a zero that fills
it up. -/
theorem scientific_two (negative : Bool) (found : ℕ) (leading : ℤ) :
    Text.integer? ((withSign negative (scientific 2 (Text.ofNat found) leading)).dropWhile
        (· ≠ 101)).tail = some leading ∧
      Text.replaceFirst "e+0" "e+" (Text.replaceFirst "e-0" "e-"
        (withSign negative (scientific 2 (Text.ofNat found) leading))) =
          withSign negative (scientific 1 (Text.ofNat found) leading) := by
  obtain ⟨front, none, written⟩ := exists_front negative found leading
  rw [written, written]
  constructor
  · have skipped : ∀ byte ∈ front, decide (byte ≠ 101) = true :=
      fun byte member => decide_eq_true (ne_of_mem_of_not_mem member none)
    rw [List.dropWhile_append_of_pos skipped, List.dropWhile_cons_of_neg (by decide)]
    exact integer?_exponent leading 2
  · have inFront := fun old new rest => Text.replaceFirst_append none old new rest
    refine (congrArg (Text.replaceFirst "e+0" "e+") (inFront [45, 48] "e-" _)).trans ?_
    exact (inFront [43, 48] "e+" _).trans (congrArg (front ++ ·) (replaceFirst_exponent leading))

end Number.Layout

/-- The `numberText` of a number is what the layout of values writes. -/
theorem numberText_eq (value : Float) : numberText value = Layout.value.write value := by
  unfold numberText Layout.write
  cases special : exact value with
  | notANumber => rfl
  | infinite negative => cases negative <;> rfl
  | finite negative significand exponent =>
    dsimp only
    split
    · rw [Layout.value, Bool.and_false]
      rfl
    · generalize shortest significand exponent = decimal
      obtain ⟨found, place⟩ := decimal
      obtain ⟨isExponent, shortened⟩ := Layout.scientific_two negative found
        (place + (Text.ofNat found).length - 1)
      have exponential : Layout.exponential.digits found place =
          Layout.scientific 2 (Text.ofNat found) (place + (Text.ofNat found).length - 1) :=
        if_neg fun within => absurd within.1 (not_le.mpr within.2)
      dsimp only
      rw [exponential, isExponent, Option.getD_some]
      split
      · case isTrue within =>
        have fixed : Layout.fixed.digits found place =
            Layout.positional (Text.ofNat found) place :=
          if_pos ⟨(by decide : (-400 : ℤ) ≤ -6).trans within.1, within.2.trans (by decide)⟩
        have here : Layout.value.digits found place = Layout.positional (Text.ofNat found) place :=
          if_pos within
        rw [fixed, here]
      · case isFalse outside =>
        have here : Layout.value.digits found place =
            Layout.scientific 1 (Text.ofNat found) (place + (Text.ofNat found).length - 1) :=
          if_neg outside
        rw [shortened, here]

/-! ### Reading the text of a number -/

/-- A double is zero just when its significand is. -/
theorem beq_zero_iff {value : Float} {negative : Bool} {significand : ℕ} {exponent : ℤ}
    (finite : exact value = .finite negative significand exponent) :
    (value == 0) = true ↔ significand = 0 := by
  constructor
  · intro isZero
    obtain ⟨-, -, same | ⟨-, other⟩ | ⟨same, -⟩⟩ := Float.beq_iff_ne_nan_and_eq.mp isZero
    · have zero : exact 0 = .finite false 0 (-1074) := rfl
      rw [same, zero] at finite
      cases finite
      rfl
    · exact absurd (congrArg Float.toBits other) (by decide)
    · have zero : exact (-0) = .finite true 0 (-1074) := rfl
      rw [same, zero] at finite
      cases finite
      rfl
  · rintro rfl
    obtain ⟨bits, shape⟩ := bits_of_exact finite
    have least : exponent = -1074 := by omega
    have signs : ∀ negative : Bool, value.toBits = (if negative then -0 else 0 : Float).toBits →
        (value == 0) = true := by
      intro negative same
      rw [Float.toBits_inj.mp same]
      cases negative <;> rfl
    refine signs negative (UInt64.toNat_inj.mp ?_)
    rw [bits, least]
    cases negative <;> rfl

/-- The `numberText` of a number denotes it, by `IsNumeral`; that of a zero denotes the one without
a sign. -/
theorem isNumeral_numberText {value : Float} (number : value.isNaN = false) :
    IsNumeral (numberText value) (if value == 0 then 0 else value) := by
  rcases special : exact value with _ | negative | ⟨negative, significand, exponent⟩
  · rw [eq_notANumber special, ← nan_eq] at number
    exact absurd number (by simp)
  · have isInfinity := eq_infinity special
    subst isInfinity
    cases negative with
    | false => exact .infinity (.inl rfl)
    | true => exact .negativeInfinity
  · have isZero := beq_zero_iff special
    rcases eq_or_ne significand 0 with rfl | some
    · have text : numberText value = Text.ofString "0" := by
        unfold numberText
        rw [special]
        rfl
      have denoted : Decimal.toFloat ⟨false, 0, 0⟩ = 0 :=
        Float.toBits_inj.mp rfl
      rw [if_pos (isZero.mpr rfl), text, ← denoted]
      exact isNumeral_of_read? rfl
    · have other : ¬ (value == 0) = true := fun same => some (isZero.mp same)
      obtain ⟨spelling, proper, text, reads⟩ := Layout.exists_spelling_write Layout.value special
      rw [decide_eq_true some, Bool.or_true, Bool.and_true] at text
      have denoted := isNumeral_of_read? (spelling.read?_text negative proper)
      rw [reads, ← text, ← numberText_eq] at denoted
      rwa [if_neg other]

/-! ### Reading values again -/

theorem ofNumeral_numberText {value : Float} (number : value.isNaN = false) :
    Content.ofNumeral (numberText value) = .number (if value == 0 then 0 else value) := by
  unfold Content.ofNumeral
  rw [ofText?_of_isNumeral (isNumeral_numberText number)]

/-- What is not a number is written as a word that `ofNumeral` does not read as one. -/
theorem ofNumeral_nan : Content.ofNumeral (numberText Float.nan) = .undefined := rfl

theorem beq_ofZero {value : Float} (number : value.isNaN = false) :
    ((if value == 0 then 0 else value) == value) = true := by
  split
  · case isTrue isZero => exact BEq.symm isZero
  · simpa using number

/-- Turning a number into `numberText` and reading that with `Content.ofNumeral` changes no number
but the sign of a zero. What is not a number and what is undefined are read as undefined, and what
`Heap.reparse` has read from the text of any value is read once more as a number equal to it, or is
undefined again. -/
theorem reparse_reparse (heap : Heap) :
    (∀ value : Float, value.isNaN = false →
      Content.ofNumeral (numberText value) = .number (if value == 0 then 0 else value) ∧
      heap.reparse (.number value) = .number (if value == 0 then 0 else value)) ∧
    (∀ value : Float, value.isNaN = true → heap.reparse (.number value) = .undefined) ∧
    heap.reparse .undefined = .undefined ∧
    ∀ content,
      heap.reparse content = .undefined ∧ heap.reparse (heap.reparse content) = .undefined ∨
      ∃ value again : Float, heap.reparse content = .number value ∧ value.isNaN = false ∧
        heap.reparse (heap.reparse content) = .number again ∧ (again == value) = true := by
  have ofNumber : ∀ value, heap.reparse (.number value) = Content.ofNumeral (numberText value) := by
    intro value
    rw [Heap.reparse, Heap.render, Heap.renderWithin]
  have ofUndefined : heap.reparse .undefined = .undefined := by
    rw [Heap.reparse, Heap.render, Heap.renderWithin]
    rfl
  have again : ∀ value : Float, value.isNaN = false →
      heap.reparse (.number value) = .number (if value == 0 then 0 else value) :=
    fun value number => (ofNumber value).trans (ofNumeral_numberText number)
  refine ⟨fun value number => ⟨ofNumeral_numberText number, again value number⟩, ?_, ofUndefined,
    fun content => ?_⟩
  · intro value special
    have isNaN : value = Float.nan := by simpa using special
    rw [ofNumber, isNaN, ofNumeral_nan]
  · rcases read : ofText? (heap.render content) with _ | value
    · have none : heap.reparse content = .undefined := by
        rw [Heap.reparse, Content.ofNumeral, read]
      exact .inl ⟨none, none.symm ▸ ofUndefined⟩
    · have found : heap.reparse content = .number value := by
        rw [Heap.reparse, Content.ofNumeral, read]
      have number := isNaN_of_isNumeral (ofTrimmed?_eq_some_iff.mp read)
      exact .inr ⟨value, _, found, number, (congrArg heap.reparse found).trans (again value number),
        beq_ofZero number⟩

/-- The least double and a negative zero are read back from their texts. -/
theorem reparse_least :
    (Float.ofBits 1).isNaN = false ∧ (-0 : Float).isNaN = false ∧
      Heap.reparse {} (.number (Float.ofBits 1)) = .number (Float.ofBits 1) ∧
      Heap.reparse {} (.number (-0)) = .number 0 := by
  have least : (Float.ofBits 1).isNaN = false := rfl
  have zero : (-0 : Float).isNaN = false := rfl
  obtain ⟨numbers, -, -, -⟩ := reparse_reparse {}
  have ofLeast := (numbers _ least).2
  have ofZero := (numbers _ zero).2
  rw [if_neg (by decide)] at ofLeast
  rw [if_pos (show ((-0 : Float) == 0) = true from rfl)] at ofZero
  exact ⟨least, zero, ofLeast, ofZero⟩

end ScriptEngine
