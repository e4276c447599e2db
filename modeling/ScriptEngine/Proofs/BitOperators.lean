/-
This file is about the bit operators. They work on the 32-bit two's complement integers of their
operands: a double that is finite has the one its exact value, cut toward zero, wraps around to. An
operator is that of integers without end, whose bits above the word repeat its sign; only a shift to
the left leaves the word and wraps around again.
-/

import Mathlib
import ScriptEngine.Proofs.Number.Truncating
import ScriptEngine.Proofs.Postfix
import ScriptEngine.Proofs.Reparsing

namespace ScriptEngine

/-! ### Bits of integers -/

/-- Integers with the same bits, without end, are equal. -/
theorem eq_of_testBit {left right : ℤ} (same : ∀ place, left.testBit place = right.testBit place) :
    left = right := by
  have apart (natural other : ℕ) : ¬ ∀ place, natural.testBit place = !other.testBit place := by
    intro all
    have high := all (natural + other)
    have bound := Nat.lt_two_pow_self (n := natural + other)
    rw [Nat.testBit_lt_two_pow (by omega), Nat.testBit_lt_two_pow (by omega)] at high
    cases high
  cases left with
  | ofNat natural =>
    cases right with
    | ofNat other => exact congrArg Int.ofNat (Nat.eq_of_testBit_eq same)
    | negSucc other => exact absurd same (apart natural other)
  | negSucc natural =>
    cases right with
    | ofNat other => exact absurd (fun place => (same place).symm) (apart other natural)
    | negSucc other =>
      exact congrArg Int.negSucc (Nat.eq_of_testBit_eq fun place => Bool.not_inj (same place))

/-- The bits of a two's complement integer are those of its word, and above them its sign. -/
theorem testBit_toInt {width : ℕ} (word : BitVec width) (place : ℕ) :
    word.toInt.testBit place = if place < width then word.getLsbD place else word.msb := by
  rw [BitVec.toInt_eq_msb_cond]
  cases sign : word.msb with
  | false =>
    rw [if_neg Bool.false_ne_true]
    change word.toNat.testBit place = _
    rw [BitVec.testBit_toNat]
    split
    · rfl
    · case isFalse beyond => exact BitVec.getLsbD_of_ge word place (not_lt.mp beyond)
  | true =>
    rw [if_pos rfl]
    have inverted : (word.toNat : ℤ) - (2 ^ width : ℕ) = Int.negSucc (~~~word).toNat := by
      have bound := word.isLt
      rw [BitVec.toNat_not, Int.negSucc_eq]
      omega
    rw [inverted]
    change (!(~~~word).toNat.testBit place) = _
    rw [BitVec.testBit_toNat, BitVec.getLsbD_not]
    split
    · case isTrue inside => simp [inside]
    · case isFalse beyond => simp [beyond]

namespace Number

theorem testBit_word (word : Int32) (place : ℕ) :
    word.toInt.testBit place =
      if place < 32 then word.toBitVec.getLsbD place else word.toBitVec.msb :=
  testBit_toInt word.toBitVec place

variable (left right : Int32)

theorem toInt_or : (left ||| right).toInt = Int.lor left.toInt right.toInt := by
  refine eq_of_testBit fun place => ?_
  rw [Int.testBit_lor, testBit_word, testBit_word, testBit_word, Int32.toBitVec_or,
    BitVec.getLsbD_or, BitVec.msb_or]
  split <;> rfl

theorem toInt_and : (left &&& right).toInt = Int.land left.toInt right.toInt := by
  refine eq_of_testBit fun place => ?_
  rw [Int.testBit_land, testBit_word, testBit_word, testBit_word, Int32.toBitVec_and,
    BitVec.getLsbD_and, BitVec.msb_and]
  split <;> rfl

theorem toInt_xor : (left ^^^ right).toInt = Int.xor left.toInt right.toInt := by
  refine eq_of_testBit fun place => ?_
  rw [Int.testBit_lxor, testBit_word, testBit_word, testBit_word, Int32.toBitVec_xor,
    BitVec.getLsbD_xor, BitVec.msb_xor]
  split <;> rfl

theorem toInt_not : (~~~left).toInt = Int.lnot left.toInt := by
  refine eq_of_testBit fun place => ?_
  rw [Int.testBit_lnot, testBit_word, testBit_word, Int32.toBitVec_not, BitVec.getLsbD_not,
    BitVec.msb_not]
  split
  · case isTrue inside => simp [inside]
  · simp

/-- The low five bits of a word are its remainder of 32, and count as that in a shift. -/
theorem shift_and : ((right &&& 31).toBitVec.smod 32).toNat = (right.toInt % 32).toNat := by
  have low : (right &&& 31).toBitVec.toNat = right.toBitVec.toNat % 32 := by
    rw [Int32.toBitVec_and, BitVec.toNat_and]
    exact Nat.and_two_pow_sub_one_eq_mod right.toBitVec.toNat 5
  have natural : (right &&& 31).toBitVec.msb = false := by
    rw [BitVec.msb_eq_false_iff_two_mul_lt, low]
    omega
  have whole : (right.toInt % 32).toNat = right.toBitVec.toNat % 32 := by
    rw [← Int32.toInt_toBitVec, BitVec.toInt_eq_msb_cond]
    split <;> omega
  rw [BitVec.smod_eq, natural, whole]
  change ((right &&& 31).toBitVec % 32).toNat = _
  rw [BitVec.toNat_umod, low]
  exact Nat.mod_mod _ _

theorem toInt_shiftRight :
    (left >>> (right &&& 31)).toInt = left.toInt / 2 ^ (right.toInt % 32).toNat := by
  rw [← Int32.toInt_toBitVec, Int32.toBitVec_shiftRight, BitVec.sshiftRight',
    BitVec.toInt_sshiftRight, shift_and, Int.shiftRight_eq_div_pow, Int32.toInt_toBitVec]
  push_cast
  rfl

/-- An integer wraps around to a 32-bit two's complement integer. -/
structure Wraps (integer word : ℤ) : Prop where
  least : -2 ^ 31 ≤ word
  below : word < 2 ^ 31
  congruent : word ≡ integer [ZMOD 2 ^ 32]

theorem Wraps.eq {integer word other : ℤ} (wraps : Wraps integer word)
    (again : Wraps integer other) : other = word := by
  obtain ⟨least, below, congruent⟩ := wraps
  obtain ⟨otherLeast, otherBelow, otherCongruent⟩ := again
  have := otherCongruent.trans congruent.symm
  unfold Int.ModEq at this
  omega

theorem wraps_ofInt (integer : ℤ) : Wraps integer (Int32.ofInt integer).toInt where
  least := Int32.le_toInt _
  below := Int32.toInt_lt _
  congruent := by
    rw [Int32.toInt_ofInt]
    exact Int.bmod_emod

theorem wraps_shiftLeft :
    Wraps (left.toInt * 2 ^ (right.toInt % 32).toNat) (left <<< (right &&& 31)).toInt where
  least := Int32.le_toInt _
  below := Int32.toInt_lt _
  congruent := by
    rw [← Int32.toInt_toBitVec, Int32.toBitVec_shiftLeft, BitVec.shiftLeft_eq',
      BitVec.toInt_shiftLeft, shift_and, Nat.shiftLeft_eq]
    have unsigned : (left.toBitVec.toNat : ℤ) ≡ left.toInt [ZMOD 2 ^ 32] := by
      rw [← Int32.toInt_toBitVec, BitVec.toInt_eq_toNat_bmod]
      exact Int.bmod_emod.symm
    push_cast
    exact Int.bmod_emod.trans (unsigned.mul_right _)


/-! ### The word of a double -/

/-- The rational number of an exact value. -/
def Exact.rational? : Exact → Option ℚ
  | .finite negative significand exponent => some (signed negative significand * 2 ^ exponent)
  | _ => none

/-- A rational number without its fraction. -/
def towardZero (number : ℚ) : ℤ :=
  if 0 ≤ number then ⌊number⌋ else ⌈number⌉

/-- The sign stays when a number is cut. -/
theorem towardZero_signed (negative : Bool) (significand : ℕ) (exponent : ℤ) :
    towardZero (signed negative significand * 2 ^ exponent) =
      signed negative (integerPart significand exponent) := by
  have unit : (0 : ℚ) < 2 ^ exponent := zpow_pos two_pos exponent
  have natural : (0 : ℚ) ≤ significand * 2 ^ exponent := by positivity
  rw [integerPart_eq]
  cases negative with
  | false =>
    have whole : ((signed false significand : ℤ) : ℚ) = significand := Int.cast_natCast significand
    rw [towardZero, whole, if_pos natural]
    exact (Int.natCast_floor_eq_floor natural).symm
  | true =>
    have whole : ((signed true significand : ℤ) : ℚ) = -significand := by simp [signed]
    have cut : signed true ⌊(significand : ℚ) * 2 ^ exponent⌋₊ =
        -⌊(significand : ℚ) * 2 ^ exponent⌋ := by
      rw [← Int.natCast_floor_eq_floor natural]
      rfl
    rw [towardZero, whole, neg_mul, Int.floor_neg, Int.ceil_neg, cut]
    split
    · case isTrue above =>
      have zero : (significand : ℚ) * 2 ^ exponent = 0 := le_antisymm (neg_nonneg.mp above) natural
      rw [zero, Int.ceil_zero, Int.floor_zero]
    · rfl

/-- What is neither without a number nor infinite stands for a rational number, and has the word
that this `Wraps` around to once it is cut `towardZero`. -/
theorem exists_rational? {value : Float} (number : value.isNaN = false)
    (bounded : value.isInf = false) :
    ∃ rational, (exact value).rational? = some rational ∧
      Wraps (towardZero rational) (toInt32 value).toInt := by
  rcases special : exact value with _ | negative | ⟨negative, significand, exponent⟩
  · rw [eq_notANumber special, ← nan_eq] at number
    exact absurd number (by simp)
  · rw [eq_infinity special] at bounded
    cases negative <;> exact absurd bounded (by decide)
  · refine ⟨_, rfl, ?_⟩
    rw [towardZero_signed, toInt32_finite special]
    exact wraps_ofInt _

end Number

open Number

/-! ### Results -/

/-- A value is the number of a word, exactly. -/
structure Content.IsWord (content : Content) (word : ℤ) : Prop where
  number : ∃ value, content = .number value ∧ (exact value).rational? = some (word : ℚ)
  least : -2 ^ 31 ≤ word
  below : word < 2 ^ 31

theorem Content.isWord_ofInt32 (value : Int32) : (Content.ofInt32 value).IsWord value.toInt := by
  have least := Int32.le_toInt value
  have below := Int32.toInt_lt value
  refine ⟨⟨_, rfl, ?_⟩, least, below⟩
  generalize value.toInt = word at least below ⊢
  obtain ⟨significand, exponent, finite, same⟩ :=
    exists_exact_integer (decide (word < 0)) (show word.natAbs < 2 ^ 53 by omega)
  have signs : signed (decide (word < 0)) word.natAbs = word := by
    unfold signed
    split
    · case isTrue negative =>
      exact neg_eq_iff_eq_neg.mpr (Int.ofNat_natAbs_of_nonpos (of_decide_eq_true negative).le)
    · case isFalse natural =>
      exact Int.natAbs_of_nonneg (not_lt.mp fun negative => natural (decide_eq_true negative))
  have scaled (negative : Bool) : ((signed negative significand : ℤ) : ℚ) * 2 ^ exponent =
      (signed negative word.natAbs : ℤ) := by
    cases negative <;> simp [signed, same]
  unfold ofInteger
  rw [finite, Exact.rational?, scaled, signs]

/-- `Heap.reparse` reads the text of a number as the same number, up to the sign of a zero. -/
theorem Heap.reparse_number (heap : Heap) {value : Float} (number : value.isNaN = false) :
    heap.reparse (.number value) = .number (if value == 0 then 0 else value) := by
  rw [reparse, render, renderWithin]
  exact ofNumeral_numberText number

theorem Number.toInt32_ofZero (value : Float) :
    toInt32 (if value == 0 then 0 else value) = toInt32 value := by
  split
  · case isTrue isZero =>
    have zero (negative : Bool) :
        Int32.ofInt (signed negative (integerPart 0 (-1074))) = Int32.ofInt 0 := by
      rw [integerPart, Nat.zero_mul, Nat.zero_div]
      cases negative <;> rfl
    have positive : exact 0 = .finite false 0 (-1074) := rfl
    have negative : exact (-0) = .finite true 0 (-1074) := rfl
    rw [toInt32_finite positive, zero]
    obtain ⟨-, -, rfl | ⟨rfl, -⟩ | ⟨rfl, -⟩⟩ := Float.beq_iff_ne_nan_and_eq.mp isZero
    · rw [toInt32_finite positive, zero]
    · rw [toInt32_finite positive, zero]
    · rw [toInt32_finite negative, zero]
  · rfl

theorem Heap.unary_complement (heap : Heap) {value : Float} (number : value.isNaN = false) :
    heap.unary .complement (.number value) = .ofInt32 (~~~(Number.toInt32 value)) := by
  rw [unary, reparse_number heap number]
  exact congrArg (fun word : Int32 => Content.ofInt32 (~~~word)) (toInt32_ofZero value)

/-- The bit operators are those of 32-bit two's complement integers, and each operand counts as the
word `Number.toInt32`, the one that its exact value, cut `towardZero`, `Wraps` around to; what is
infinite or not a number counts as zero. A shift is by the word of the right operand, divided by 32
as integers are. The complement is of a number; other values are read from their texts first. Each
result `Content.IsWord`. -/
theorem bitOperators_words :
    (∀ value : Float, value.isNaN = true ∨ value.isInf = true → Number.toInt32 value = 0) ∧
    (∀ value : Float, value.isNaN = false → value.isInf = false →
      ∃ rational, (exact value).rational? = some rational ∧
        ∀ word, Wraps (towardZero rational) word ↔ word = (Number.toInt32 value).toInt) ∧
    (∀ (heap : Heap) (left right : Content) (leftWord rightWord : ℤ),
      left.toInt32.toInt = leftWord → right.toInt32.toInt = rightWord →
      (∃ word, Wraps (leftWord * 2 ^ (rightWord % 32).toNat) word ∧
        (heap.binary .shl left right).IsWord word) ∧
      (heap.binary .shr left right).IsWord (leftWord / 2 ^ (rightWord % 32).toNat) ∧
      (heap.binary .bitOr left right).IsWord (Int.lor leftWord rightWord) ∧
      (heap.binary .bitAnd left right).IsWord (Int.land leftWord rightWord) ∧
      (heap.binary .xor left right).IsWord (Int.xor leftWord rightWord)) ∧
    ∀ (machine : Machine) (instruction : Instruction CellId) (lower : Array Operand)
      (operand : Operand) (value : Float), instruction.opcode = .bnot →
      machine.operands = lower.push operand →
      machine.heap.content operand.cell = .number value → value.isNaN = false →
      ∃ content : Content, content.IsWord (Int.lnot (Number.toInt32 value).toInt) ∧
        Machine.execute instruction machine = .ok .done (machine.giving lower content) := by
  refine ⟨fun value special => toInt32_special special, fun value number bounded => ?_, ?_, ?_⟩
  · obtain ⟨rational, isRational, wraps⟩ := exists_rational? number bounded
    refine ⟨rational, isRational, fun word => ⟨wraps.eq, ?_⟩⟩
    rintro rfl
    exact wraps
  · rintro heap left right _ _ rfl rfl
    refine ⟨⟨_, wraps_shiftLeft _ _, Content.isWord_ofInt32 _⟩, ?_, ?_, ?_, ?_⟩
    · rw [← toInt_shiftRight]
      exact Content.isWord_ofInt32 _
    · rw [← toInt_or]
      exact Content.isWord_ofInt32 _
    · rw [← toInt_and]
      exact Content.isWord_ofInt32 _
    · rw [← toInt_xor]
      exact Content.isWord_ofInt32 _
  · intro machine instruction lower operand value isComplement operands holds number
    have applies : instruction.opcode = UnaryOperator.complement.opcode := isComplement
    have executed := Machine.execute_unary applies operands
    rw [holds, Heap.unary_complement _ number] at executed
    refine ⟨_, ?_, executed⟩
    rw [← toInt_not]
    exact Content.isWord_ofInt32 _

/-- Shifting by minus one is shifting by 31, and minus three and a half counts as minus three. -/
theorem bitOperators_words_negative :
    let left := Float.ofBits 0xC00C000000000000
    let right := Float.ofBits 0xBFF0000000000000
    let machine : Machine :=
      { heap := (Heap.allocateContent (.number left) {}).2, operands := #[{ cell := ⟨0⟩ }],
        scopes := default }
    Number.toInt32 Float.nan = 0 ∧
    (exact left).rational? = some (-(7 / 2)) ∧
    (∀ word, Wraps (-3) word ↔ word = (Number.toInt32 left).toInt) ∧
    (machine.heap.binary .shl (.number left) (.number right)).IsWord (-2 ^ 31) ∧
    (machine.heap.binary .shr (.number left) (.number right)).IsWord (-1) ∧
    ∃ content : Content, content.IsWord 2 ∧
      Machine.execute { opcode := .bnot } machine = .ok .done (machine.giving #[] content) := by
  intro left right machine
  obtain ⟨special, finite, binary, complement⟩ := bitOperators_words
  have isLeft : exact left = .finite true (7 * 2 ^ 50) (-51) := by decide
  have isRight : exact right = .finite true (2 ^ 52) (-52) := by decide
  have number : left.isNaN = false := isNaN_eq_false isLeft
  have leftWord : Number.toInt32 left = -3 := toInt32_finite isLeft
  have rightWord : Number.toInt32 right = -1 := toInt32_finite isRight
  have rational : (exact left).rational? = some (-(7 / 2)) := by
    rw [isLeft, Exact.rational?]
    norm_num [signed]
  have leftOperand : (Content.number left).toInt32.toInt = -3 := congrArg Int32.toInt leftWord
  have rightOperand : (Content.number right).toInt32.toInt = -1 := congrArg Int32.toInt rightWord
  obtain ⟨⟨word, wraps, shifted⟩, divided, -⟩ :=
    binary machine.heap _ _ (-3) (-1) leftOperand rightOperand
  refine ⟨special _ (.inl rfl), rational, ?_, ?_, divided, ?_⟩
  · obtain ⟨_, isRational, unique⟩ := finite left number (isInf_eq_false isLeft)
    obtain rfl := Option.some.inj (rational.symm.trans isRational)
    have cut : towardZero (-(7 / 2)) = -3 := by
      rw [towardZero, if_neg (by norm_num), Int.ceil_eq_iff]
      norm_num
    rwa [cut] at unique
  · obtain rfl : -2 ^ 31 = word := wraps.eq ⟨by norm_num, by norm_num, by decide⟩
    exact shifted
  · have computed :=
      complement machine { opcode := .bnot } #[] { cell := ⟨0⟩ } left rfl rfl rfl number
    rwa [leftWord] at computed

end ScriptEngine
