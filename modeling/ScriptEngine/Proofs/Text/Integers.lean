/-
This file says which texts are decimal integers, and that these are the texts the readers of
integers accept. An integer is a run of digits with a sign in front of it or none; a signed integer
of 64 bits lies within the range of those.
-/

import Mathlib
import ScriptEngine.Proofs.Text.Numerals

namespace ScriptEngine

open Number.Decimal (isDigit digitsValue)

namespace Text

/-! ### Integers as they are written -/

/-- A text consists of decimal digits, and of at least one. -/
def IsDigits (digits : Text) : Prop :=
  digits ≠ [] ∧ ∀ byte ∈ digits, isDigit byte = true

/-- The integer that a decimal numeral denotes; a sign may stand in front of its digits. -/
inductive Denotes : Text → ℤ → Prop
  | unsigned {digits : Text} (isDigits : IsDigits digits) :
      Denotes digits (digitsValue digits)
  | positive {digits : Text} (isDigits : IsDigits digits) :
      Denotes (Text.ofString "+" ++ digits) (digitsValue digits)
  | negative {digits : Text} (isDigits : IsDigits digits) :
      Denotes (Text.ofString "-" ++ digits) (-(digitsValue digits : ℤ))

/-- A text is a decimal integer of 64 bits. -/
def IsInteger (numeral : Text) (value : ℤ) : Prop :=
  Denotes numeral value ∧ -2 ^ 63 ≤ value ∧ value < 2 ^ 63

/-! ### Integers as they are read -/

/-- A number with one more digit, if it is a digit. -/
def addDigit? (value : Option ℕ) (byte : UInt8) : Option ℕ := do
  return (← value) * 10 + (← digitValue? byte)

theorem foldl_addDigit?_none (digits : Text) : digits.foldl addDigit? none = none := by
  induction digits with
  | nil => rfl
  | cons byte rest ih => exact ih

theorem foldl_addDigit? (digits : Text) (value : ℕ) :
    digits.foldl addDigit? (some value) =
      if ∀ byte ∈ digits, isDigit byte = true then
        some (digits.foldl (fun value digit => value * 10 + (digit.toNat - 48)) value)
      else none := by
  induction digits generalizing value with
  | nil => simp
  | cons byte rest ih =>
    rw [List.foldl_cons, List.foldl_cons]
    by_cases digit : isDigit byte = true
    · have added : addDigit? (some value) byte = some (value * 10 + (byte.toNat - 48)) := by
        have isValue : digitValue? byte = some (byte.toNat - 48) := by
          simpa [digitValue?, isDigit] using digit
        rw [addDigit?, isValue]
        rfl
      rw [added, ih]
      simp only [List.forall_mem_cons, digit, true_and]
    · have refused : addDigit? (some value) byte = none := by
        have noValue : digitValue? byte = none := by
          simpa [digitValue?, isDigit] using digit
        rw [addDigit?, noValue]
        rfl
      rw [refused, foldl_addDigit?_none, if_neg fun all => digit (all byte List.mem_cons_self)]

theorem digits?_eq_some_iff {digits : Text} {value : ℕ} :
    digits? digits = some value ↔ IsDigits digits ∧ digitsValue digits = value := by
  cases digits with
  | nil => simp [digits?, IsDigits]
  | cons byte rest =>
    have folded : digits? (byte :: rest) = _ := foldl_addDigit? (byte :: rest) 0
    unfold IsDigits digitsValue
    rw [folded]
    simp

/-! ### Numerals without leading zeros -/

theorem exists_digitByte {byte : UInt8} (digit : isDigit byte = true) :
    ∃ value < 10, byte = digitByte value := by
  have bounds : 48 ≤ byte ∧ byte ≤ 57 := by simpa [isDigit] using digit
  rw [UInt8.le_iff_toNat_le, UInt8.le_iff_toNat_le] at bounds
  have least : (48 : UInt8).toNat = 48 := rfl
  have most : (57 : UInt8).toNat = 57 := rfl
  refine ⟨byte.toNat - 48, by omega, UInt8.toNat_inj.mp ?_⟩
  rw [toNat_digitByte _ (by omega)]
  omega

/-- Only the numeral of zero starts with a zero. -/
theorem head?_ofNat {value : ℕ} (positive : 0 < value) : (ofNat value).head? ≠ some 48 := by
  induction value using numeral_induction with
  | one value small =>
    have bytes : ∀ digit < 10, 0 < digit → digitByte digit ≠ 48 := by decide
    rw [ofNat_of_lt small, List.head?_cons, ne_eq, Option.some_inj]
    exact bytes value small positive
  | more value digit filled small ih =>
    obtain ⟨first, rest, split⟩ := List.exists_cons_of_ne_nil (ofNat_ne_nil value)
    rw [ofNat_snoc filled small]
    have first := ih filled
    rw [split] at first ⊢
    exact first

/-- Digits without a leading zero are the numeral of their `digitsValue`. -/
theorem ofNat_digitsValue {digits : Text} (isDigits : IsDigits digits)
    (noZero : 1 < digits.length → digits.head? ≠ some 48) :
    ofNat (digitsValue digits) = digits := by
  induction digits using List.reverseRecOn with
  | nil => exact absurd rfl isDigits.1
  | append_singleton front byte ih =>
    obtain ⟨others, last⟩ := List.forall_mem_append.mp isDigits.2
    obtain ⟨digit, small, rfl⟩ := exists_digitByte (last byte (List.mem_singleton_self _))
    rw [digitsValue_snoc front small]
    cases front with
    | nil => exact (congrArg ofNat (Nat.zero_add digit)).trans (ofNat_of_lt small)
    | cons first rest =>
      have other : first ≠ 48 := fun same => noZero (by simp) (congrArg some same)
      have same := ih ⟨List.cons_ne_nil _ _, others⟩ fun _ zero => other (Option.some.inj zero)
      have positive : 0 < digitsValue (first :: rest) := by
        refine Nat.pos_of_ne_zero fun zero => other ?_
        rw [zero, ofNat_of_lt (by decide)] at same
        exact (List.cons.inj same).1.symm
      rw [ofNat_snoc positive small, same]

/-! ### Signs -/

theorem integer?_eq_some_iff {numeral : Text} {value : ℤ} :
    integer? numeral = some value ↔ Denotes numeral value := by
  constructor
  · intro read
    unfold integer? at read
    split at read
    all_goals
      obtain ⟨whole, isWhole, rfl⟩ := Option.map_eq_some_iff.mp read
      obtain ⟨magnitude, found, isMagnitude⟩ := Option.bind_eq_some_iff.mp isWhole
      cases isMagnitude
      obtain ⟨isDigits, same⟩ := digits?_eq_some_iff.mp found
      subst same
    · exact .negative isDigits
    · exact .positive isDigits
    · exact .unsigned isDigits
  · intro denotes
    cases denotes with
    | unsigned isDigits =>
      obtain ⟨byte, rest, rfl⟩ := List.exists_cons_of_ne_nil isDigits.1
      rw [integer?_of_digit (isDigits.2 byte List.mem_cons_self),
        digits?_eq_some_iff.mpr ⟨isDigits, rfl⟩]
      rfl
    | @positive digits isDigits =>
      show Option.map _ (do return ((← digits? digits : ℕ) : ℤ)) = _
      rw [digits?_eq_some_iff.mpr ⟨isDigits, rfl⟩]
      rfl
    | @negative digits isDigits =>
      show Option.map _ (do return ((← digits? digits : ℕ) : ℤ)) = _
      rw [digits?_eq_some_iff.mpr ⟨isDigits, rfl⟩]
      rfl

theorem int64?_eq_some_iff {numeral : Text} {value : Int64} :
    int64? numeral = some value ↔ IsInteger numeral value.toInt := by
  have least : Int64.minValue.toInt = -2 ^ 63 := by decide
  have most : Int64.maxValue.toInt = 2 ^ 63 - 1 := by decide
  have below := value.toInt_lt
  have above := value.le_toInt
  unfold int64? IsInteger
  rw [Option.bind_eq_bind, Option.bind_eq_some_iff, ← integer?_eq_some_iff]
  constructor
  · rintro ⟨whole, read, within⟩
    split at within
    · case isTrue bounds =>
      cases within
      rw [Int64.toInt_ofInt_of_le (by omega) (by omega)]
      exact ⟨read, by omega, by omega⟩
    · cases within
  · rintro ⟨read, _, _⟩
    exact ⟨value.toInt, read, by rw [if_pos (by omega), Int64.ofInt_toInt]⟩

/-- `int64?` reads an integer of 64 bits, whatever it is. -/
theorem exists_int64?_iff {numeral : Text} {property : ℤ → Prop} :
    (∃ value, int64? numeral = some value ∧ property value.toInt) ↔
      ∃ value, IsInteger numeral value ∧ property value := by
  constructor
  · rintro ⟨value, read, good⟩
    exact ⟨value.toInt, int64?_eq_some_iff.mp read, good⟩
  · rintro ⟨value, ⟨denotes, above, below⟩, good⟩
    have same : (Int64.ofInt value).toInt = value :=
      Int64.toInt_ofInt_of_le (by omega) (by omega)
    exact ⟨Int64.ofInt value, int64?_eq_some_iff.mpr (by rw [same]; exact ⟨denotes, above, below⟩),
      by rwa [same]⟩

end Text

end ScriptEngine
