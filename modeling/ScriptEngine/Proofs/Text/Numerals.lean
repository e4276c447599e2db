/-
This file is about decimal numerals. The numeral of a natural number is a run of digits that every
reader of digits reads as that number: as a count, as an offset with a sign, and as the digits or
the exponent of a literal.
-/

import Mathlib
import ScriptEngine.Number.Decimal
import ScriptEngine.Proofs.Text.Characters

namespace ScriptEngine

open Number.Decimal (isDigit digitsValue exponentValue)

namespace Text

/-! ### Digits -/

/-- The byte of a digit. -/
def digitByte (digit : ℕ) : UInt8 := (Nat.digitChar digit).toNat.toUInt8

theorem toNat_digitByte : ∀ digit < 10, (digitByte digit).toNat = 48 + digit := by decide

theorem ofNat_of_lt {value : ℕ} (small : value < 10) : ofNat value = [digitByte value] := by
  unfold ofNat
  rw [Nat.toDigits_of_lt_base small]
  rfl

/-- The last digit of a numeral and the numeral in front of it. -/
theorem ofNat_snoc {value : ℕ} (positive : 0 < value) {digit : ℕ} (small : digit < 10) :
    ofNat (value * 10 + digit) = ofNat value ++ [digitByte digit] := by
  unfold ofNat
  rw [Nat.mul_comm, ← Nat.toDigits_append_toDigits (by decide) positive small, List.map_append,
    Nat.toDigits_of_lt_base small]
  rfl

theorem ofNat_ne_nil (value : ℕ) : ofNat value ≠ [] := by
  simp [ofNat, Nat.toDigits_ne_nil]

/-- Numerals by their last digit. -/
theorem numeral_induction {motive : ℕ → Prop} (one : ∀ value < 10, motive value)
    (more : ∀ value digit, 0 < value → digit < 10 → motive value → motive (value * 10 + digit))
    (value : ℕ) : motive value := by
  induction value using Nat.strongRecOn with
  | ind value ih =>
    by_cases small : value < 10
    · exact one value small
    · have split : value / 10 * 10 + value % 10 = value := Nat.div_add_mod' value 10
      rw [← split]
      exact more _ _ (by omega) (Nat.mod_lt _ (by decide)) (ih _ (by omega))

theorem length_ofNat_le {value count : ℕ} (positive : 0 < count) :
    (ofNat value).length ≤ count ↔ value < 10 ^ count := by
  rw [ofNat, List.length_map]
  exact Nat.length_toDigits_le_iff (by decide) positive

theorem ofNat_mul_pow {value : ℕ} (positive : 0 < value) (zeros : ℕ) :
    ofNat (value * 10 ^ zeros) = ofNat value ++ List.replicate zeros 48 := by
  induction zeros with
  | zero => simp
  | succ zeros ih =>
    have shifted : value * 10 ^ (zeros + 1) = value * 10 ^ zeros * 10 + 0 := by ring
    rw [shifted, ofNat_snoc (Nat.mul_pos positive (Nat.pow_pos (by norm_num))) (by decide), ih,
      List.append_assoc, List.replicate_succ']
    rfl

/-! ### Reading digits -/

theorem isDigit_digitByte : ∀ digit < 10, isDigit (digitByte digit) = true := by decide

theorem isDigit_of_mem_ofNat {value : ℕ} : ∀ byte ∈ ofNat value, isDigit byte = true := by
  induction value using numeral_induction with
  | one value small =>
    rw [ofNat_of_lt small, List.forall_mem_singleton]
    exact isDigit_digitByte value small
  | more value digit positive small ih =>
    rw [ofNat_snoc positive small, List.forall_mem_append, List.forall_mem_singleton]
    exact ⟨ih, isDigit_digitByte digit small⟩

theorem digitsValue_snoc (digits : Text) {digit : ℕ} (small : digit < 10) :
    digitsValue (digits ++ [digitByte digit]) = digitsValue digits * 10 + digit := by
  have byte := toNat_digitByte digit small
  unfold digitsValue
  rw [List.foldl_append, List.foldl_cons, List.foldl_nil, byte, Nat.add_sub_cancel_left]

theorem digitsValue_ofNat (value : ℕ) : digitsValue (ofNat value) = value := by
  induction value using numeral_induction with
  | one value small =>
    rw [ofNat_of_lt small, ← List.nil_append [_], digitsValue_snoc [] small]
    exact Nat.zero_add value
  | more value digit positive small ih =>
    rw [ofNat_snoc positive small, digitsValue_snoc _ small, ih]

theorem digitsValue_zeros_append (zeros : ℕ) (digits : Text) :
    digitsValue (List.replicate zeros 48 ++ digits) = digitsValue digits := by
  induction zeros with
  | zero => rfl
  | succ zeros ih =>
    rw [List.replicate_succ, List.cons_append, ← ih]
    rfl

theorem digitsValue_append_zeros (digits : Text) (zeros : ℕ) :
    digitsValue (digits ++ List.replicate zeros 48) = digitsValue digits * 10 ^ zeros := by
  induction zeros with
  | zero => simp
  | succ zeros ih =>
    have last : (48 : UInt8) = digitByte 0 := by decide
    rw [List.replicate_succ', ← List.append_assoc]
    nth_rewrite 2 [last]
    rw [digitsValue_snoc _ (by decide), ih]
    ring

/-- `exponentValue` reads exponents of less than six digits in full. -/
theorem exponentValue_ofNat {value : ℕ} (small : value < 100000) :
    exponentValue (ofNat value) = value := by
  induction value using numeral_induction with
  | one value below =>
    have byte := toNat_digitByte value below
    rw [ofNat_of_lt below]
    simp [exponentValue, byte]
  | more value digit positive below ih =>
    have byte := toNat_digitByte digit below
    have before := ih (by omega)
    unfold exponentValue at before ⊢
    rw [ofNat_snoc positive below, List.foldl_append, before, List.foldl_cons, List.foldl_nil,
      if_pos (by omega), byte, Nat.add_sub_cancel_left]

theorem exponentValue_zeros_append (zeros : ℕ) (digits : Text) :
    exponentValue (List.replicate zeros 48 ++ digits) = exponentValue digits := by
  induction zeros with
  | zero => rfl
  | succ zeros ih =>
    rw [List.replicate_succ, List.cons_append, ← ih]
    rfl

/-! ### Integers -/

theorem digits?_ofNat (value : ℕ) : digits? (ofNat value) = some value := by
  have values : ∀ bytes : Text, bytes ≠ [] → digits? bytes = bytes.foldl (fun value byte => do
      return (← value) * 10 + (← digitValue? byte)) (some 0) := by
    intro bytes filled
    cases bytes with
    | nil => exact absurd rfl filled
    | cons byte rest => rfl
  have digitValue : ∀ digit < 10, digitValue? (digitByte digit) = some digit := by decide
  rw [values _ (ofNat_ne_nil value)]
  induction value using numeral_induction with
  | one value small =>
    rw [ofNat_of_lt small]
    simp [digitValue value small]
  | more value digit positive small ih =>
    rw [ofNat_snoc positive small, List.foldl_append, ih]
    simp [digitValue digit small]

theorem integer?_of_digit {byte : UInt8} {rest : Text} (digit : isDigit byte = true) :
    integer? (byte :: rest) = (digits? (byte :: rest)).map fun value => (value : ℤ) := by
  unfold integer?
  split
  · case h_1 same => simp_all [isDigit]
  · case h_2 same => simp_all [isDigit]
  · rfl

theorem integer?_ofInt (value : ℤ) : integer? (ofInt value) = some value := by
  cases value with
  | ofNat magnitude =>
    obtain ⟨byte, rest, split⟩ := List.exists_cons_of_ne_nil (ofNat_ne_nil magnitude)
    have first : byte ∈ ofNat magnitude := split ▸ List.mem_cons_self
    have digit := isDigit_of_mem_ofNat byte first
    rw [ofInt, split, integer?_of_digit digit, ← split, digits?_ofNat]
    rfl
  | negSucc below =>
    rw [ofInt, integer?, digits?_ofNat, Int.negSucc_eq]
    rfl

/-- `int64?` reads an integer of 64 bits as it was written. -/
theorem int64?_ofInt (value : Int64) : int64? (ofInt value.toInt) = some value := by
  have below := value.toInt_lt
  have above := value.le_toInt
  have least : Int64.minValue.toInt = -2 ^ 63 := by decide
  have most : Int64.maxValue.toInt = 2 ^ 63 - 1 := by decide
  unfold int64?
  rw [integer?_ofInt]
  simp only [Option.bind_eq_bind, Option.bind_some]
  rw [if_pos (by omega), Int64.ofInt_toInt]

theorem int64?_ofNat {value : ℕ} (small : value < 2 ^ 63) :
    int64? (ofNat value) = some (Int64.ofNat value) := by
  have whole := int64?_ofInt (Int64.ofNat value)
  rw [Int64.toInt_ofNat_of_lt small] at whole
  exact whole

theorem ofInt_inj {first second : ℤ} : ofInt first = ofInt second ↔ first = second := by
  refine ⟨fun same => ?_, congrArg _⟩
  have read := integer?_ofInt first
  rw [same, integer?_ofInt] at read
  exact (Option.some_inj.mp read).symm

end Text

end ScriptEngine
