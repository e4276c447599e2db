/-
This file says which texts are decimal literals, and that these are the texts which are read as
decimals. A literal is a sign or none, digits with a point or without, and a power of ten or none.
The other literals have bytes that no decimal one has, so that the decimal literals are those
without such a byte.
-/

import Mathlib
import ScriptEngine.Number.Numeral
import ScriptEngine.Proofs.Text.Integers

namespace ScriptEngine.Number

open Decimal (isDigit digitsValue exponentValue)
open Text (IsDigits)

/-! ### The grammar -/

/-- A sign or none, and whether it is a minus. -/
inductive IsSign : Text → Bool → Prop
  | none : IsSign [] false
  | plus : IsSign "+" false
  | minus : IsSign "-" true

/-- Digits with a point or without it: those in front of the point and those behind it. -/
inductive IsMantissa : Text → Text → Text → Prop
  | whole {digits : Text} (isDigits : IsDigits digits) : IsMantissa digits digits []
  | pointed {whole fraction : Text} (isDigits : IsDigits whole)
      (others : ∀ byte ∈ fraction, isDigit byte = true) :
      IsMantissa (whole ++ Text.ofString "." ++ fraction) whole fraction
  | fraction {fraction : Text} (isDigits : IsDigits fraction) :
      IsMantissa (Text.ofString "." ++ fraction) [] fraction

/-- A power of ten or none: whether its exponent is below zero, and the digits of that. -/
inductive IsPower : Text → Bool → Text → Prop
  | none : IsPower [] false []
  | power {mark sign digits : Text} {below : Bool} (isMark : mark = "e" ∨ mark = "E")
      (isSign : IsSign sign below) (isDigits : IsDigits digits) :
      IsPower (mark ++ sign ++ digits) below digits

/-- The parts of a decimal literal. -/
structure Parts where
  negative : Bool
  whole : Text
  fraction : Text
  below : Bool := false
  power : Text := []

/-- A text is a decimal literal with certain parts: a sign, `IsSign`, then digits, `IsMantissa`, and
a power of ten, `IsPower`. -/
inductive IsLiteral : Text → Parts → Prop
  | intro {sign mantissa power : Text} {parts : Parts} (isSign : IsSign sign parts.negative)
      (isMantissa : IsMantissa mantissa parts.whole parts.fraction)
      (isPower : IsPower power parts.below parts.power) :
      IsLiteral (sign ++ mantissa ++ power) parts

namespace Parts

variable (parts : Parts)

/-- The digits of a literal without its point. -/
def digits : Text := parts.whole ++ parts.fraction

/-- A magnitude with the sign of the exponent. -/
def exponentOf (magnitude : ℕ) : ℤ :=
  if parts.below then -(magnitude : ℤ) else magnitude

/-- The magnitude that a literal spells. -/
def magnitude : ℚ :=
  digitsValue parts.digits *
    10 ^ (parts.exponentOf (digitsValue parts.power) - parts.fraction.length)

/-- The decimal that a literal is read as: its exponent is counted up to a bound. -/
def decimal : Decimal where
  negative := parts.negative
  digits := digitsValue parts.digits
  exponent := parts.exponentOf (exponentValue parts.power) - parts.fraction.length

/-- The double that a literal denotes. -/
def value : Float := parts.decimal.toFloat

end Parts

/-! ### Reading the parts -/

/-- A literal goes on behind its sign with something that is no sign. -/
theorem splitSign_of_ne {text : Text} (plain : ∀ byte ∈ text.head?, byte ≠ 43 ∧ byte ≠ 45) :
    Decimal.splitSign text = (false, text) := by
  unfold Decimal.splitSign
  split
  · exact absurd rfl (plain 45 rfl).2
  · exact absurd rfl (plain 43 rfl).1
  · rfl

theorem splitSign_append {sign text : Text} {negative : Bool} (isSign : IsSign sign negative)
    (plain : ∀ byte ∈ text.head?, byte ≠ 43 ∧ byte ≠ 45) :
    Decimal.splitSign (sign ++ text) = (negative, text) := by
  cases isSign with
  | none => exact splitSign_of_ne plain
  | plus | minus => rfl

theorem exists_sign (text : Text) :
    ∃ sign, IsSign sign (Decimal.splitSign text).1 ∧ text = sign ++ (Decimal.splitSign text).2 := by
  unfold Decimal.splitSign
  split
  · exact ⟨_, .minus, rfl⟩
  · exact ⟨_, .plus, rfl⟩
  · exact ⟨_, .none, rfl⟩

theorem ne_sign_of_isDigit {byte : UInt8} (digit : isDigit byte = true) :
    byte ≠ 43 ∧ byte ≠ 45 := by
  constructor <;> rintro rfl <;> cases digit

theorem head?_of_isDigits {digits : Text} (isDigits : IsDigits digits) (rest : Text) :
    ∃ byte, (digits ++ rest).head? = some byte ∧ isDigit byte = true := by
  obtain ⟨byte, others, rfl⟩ := List.exists_cons_of_ne_nil isDigits.1
  exact ⟨byte, rfl, isDigits.2 byte List.mem_cons_self⟩

/-- The power of ten at the end of a literal, `IsPower`. -/
theorem exponent?_eq_some_iff {text : Text} {exponent : ℤ} :
    Decimal.exponent? text = some exponent ↔
      ∃ below digits, IsPower text below digits ∧
        exponent = if below then -(exponentValue digits : ℤ) else exponentValue digits := by
  constructor
  · intro read
    unfold Decimal.exponent? at read
    split at read
    · cases read
      exact ⟨false, [], .none, rfl⟩
    · case h_2 mark rest =>
      obtain ⟨sign, isSign, isRest⟩ := exists_sign rest
      generalize Decimal.splitSign rest = parts at read isSign isRest
      obtain ⟨below, digits⟩ := parts
      split at read
      · case isTrue isMark =>
        dsimp only at read
        split at read
        · case isTrue isDigits =>
          cases read
          refine ⟨below, digits, ?_, rfl⟩
          have marked : [mark] = Text.ofString "e" ∨ [mark] = Text.ofString "E" := by
            rcases isMark with rfl | rfl
            · exact .inl rfl
            · exact .inr rfl
          rw [isRest]
          exact .power marked isSign ⟨isDigits.1, List.all_eq_true.mp isDigits.2⟩
        · cases read
      · cases read
  · rintro ⟨below, digits, isPower, rfl⟩
    cases isPower with
    | none => rfl
    | @power mark sign digits below isMark isSign isDigits =>
      obtain ⟨first, isFirst, digit⟩ := head?_of_isDigits isDigits []
      rw [List.append_nil] at isFirst
      have split : Decimal.splitSign (sign ++ digits) = (below, digits) := by
        refine splitSign_append isSign fun byte member => ?_
        rw [isFirst] at member
        cases member
        exact ne_sign_of_isDigit digit
      have all : digits.all isDigit = true := List.all_eq_true.mpr isDigits.2
      have marked : ∀ byte : UInt8, byte = 101 ∨ byte = 69 →
          Decimal.exponent? (byte :: (sign ++ digits)) =
            some (if below then -(exponentValue digits : ℤ) else exponentValue digits) := by
        intro byte isByte
        rw [Decimal.exponent?, if_pos isByte, split]
        exact if_pos ⟨isDigits.1, all⟩
      rw [List.append_assoc]
      rcases isMark with rfl | rfl
      · exact marked 101 (.inl rfl)
      · exact marked 69 (.inr rfl)

/-- No digit stands at the front of a power of ten, nor a point. -/
theorem head?_of_isPower {power digits : Text} {below : Bool}
    (isPower : IsPower power below digits) :
    ∀ byte ∈ power.head?, isDigit byte = false ∧ byte ≠ 46 := by
  cases isPower with
  | none => nofun
  | power isMark isSign isDigits =>
    rcases isMark with rfl | rfl <;> rintro byte ⟨⟩ <;> exact ⟨rfl, by decide⟩

theorem takeWhile_digits {digits rest : Text} (isDigits : ∀ byte ∈ digits, isDigit byte = true)
    (ends : ∀ byte ∈ rest.head?, isDigit byte = false) :
    (digits ++ rest).takeWhile isDigit = digits ∧ (digits ++ rest).dropWhile isDigit = rest := by
  rw [List.takeWhile_append_of_pos isDigits, List.dropWhile_append_of_pos isDigits]
  cases rest with
  | nil => exact ⟨List.append_nil _, rfl⟩
  | cons byte others =>
    have no : ¬ isDigit byte = true := by
      rw [ends byte rfl]
      exact Bool.false_ne_true
    rw [List.takeWhile_cons_of_neg no, List.dropWhile_cons_of_neg no, List.append_nil]
    exact ⟨rfl, rfl⟩

theorem splitFraction_of_ne {text : Text} (ends : ∀ byte ∈ text.head?, byte ≠ 46) :
    Decimal.splitFraction text = ([], text) := by
  unfold Decimal.splitFraction
  split
  · exact absurd rfl (ends 46 rfl)
  · rfl

/-- The digits of a literal are found on both sides of its point by `splitFraction`. -/
theorem split_mantissa {mantissa whole fraction power digits : Text} {below : Bool}
    (isMantissa : IsMantissa mantissa whole fraction) (isPower : IsPower power below digits) :
    (mantissa ++ power).takeWhile isDigit = whole ∧
      Decimal.splitFraction ((mantissa ++ power).dropWhile isDigit) = (fraction, power) ∧
      whole ++ fraction ≠ [] := by
  have ends := head?_of_isPower isPower
  have point : ∀ rest : Text, ∀ byte ∈ (46 :: rest : Text).head?, isDigit byte = false := by
    rintro rest byte ⟨⟩
    rfl
  cases isMantissa with
  | whole isDigits =>
    obtain ⟨taken, dropped⟩ := takeWhile_digits isDigits.2 fun byte member => (ends byte member).1
    rw [taken, dropped, splitFraction_of_ne fun byte member => (ends byte member).2]
    exact ⟨rfl, rfl, by simpa using isDigits.1⟩
  | pointed isDigits others =>
    obtain ⟨taken, dropped⟩ := takeWhile_digits isDigits.2 (point (fraction ++ power))
    obtain ⟨behind, rest⟩ := takeWhile_digits others fun byte member => (ends byte member).1
    have same : whole ++ Text.ofString "." ++ fraction ++ power =
        whole ++ 46 :: (fraction ++ power) := by
      rw [show Text.ofString "." = [46] from rfl]
      simp
    rw [same, taken, dropped, Decimal.splitFraction, behind, rest]
    exact ⟨rfl, rfl, by simp [isDigits.1]⟩
  | fraction isDigits =>
    obtain ⟨behind, rest⟩ := takeWhile_digits isDigits.2 fun byte member => (ends byte member).1
    refine ⟨rfl, ?_, isDigits.1⟩
    show Decimal.splitFraction (46 :: (fraction ++ power)) = _
    rw [Decimal.splitFraction, behind, rest]

/-- What `splitFraction` finds on both sides of a point is a mantissa, `IsMantissa`. -/
theorem exists_mantissa (unsigned : Text) {fraction rest : Text}
    (isFraction : Decimal.splitFraction (unsigned.dropWhile isDigit) = (fraction, rest))
    (filled : unsigned.takeWhile isDigit ++ fraction ≠ []) :
    ∃ mantissa, IsMantissa mantissa (unsigned.takeWhile isDigit) fraction ∧
      unsigned = mantissa ++ rest := by
  have digits : ∀ text : Text, ∀ byte ∈ text.takeWhile isDigit, isDigit byte = true :=
    fun text byte member => List.mem_takeWhile_imp member
  have whole := List.takeWhile_append_dropWhile (p := isDigit) (l := unsigned)
  unfold Decimal.splitFraction at isFraction
  split at isFraction
  · case h_1 behind isBehind =>
    obtain ⟨rfl, rfl⟩ := Prod.mk.inj isFraction
    have parts : unsigned = unsigned.takeWhile isDigit ++ Text.ofString "." ++
        behind.takeWhile isDigit ++ behind.dropWhile isDigit := by
      rw [List.append_assoc, List.takeWhile_append_dropWhile, List.append_assoc]
      exact whole.symm.trans (congrArg _ isBehind)
    rcases eq_or_ne (unsigned.takeWhile isDigit) [] with none | some
    · rw [none, List.nil_append] at filled parts
      rw [none]
      exact ⟨_, .fraction ⟨filled, digits behind⟩, parts⟩
    · exact ⟨_, .pointed ⟨some, digits unsigned⟩ (digits behind), parts⟩
  · obtain ⟨rfl, rfl⟩ := Prod.mk.inj isFraction
    rw [List.append_nil] at filled
    exact ⟨_, .whole ⟨filled, digits unsigned⟩, whole.symm⟩

/-- A literal without its sign starts with a digit or a point. -/
theorem head?_of_isMantissa {mantissa whole fraction : Text}
    (isMantissa : IsMantissa mantissa whole fraction) (rest : Text) :
    ∀ byte ∈ (mantissa ++ rest).head?, byte ≠ 43 ∧ byte ≠ 45 := by
  have digit : ∀ {digits : Text} (behind : Text), IsDigits digits →
      ∀ byte ∈ (digits ++ behind).head?, byte ≠ 43 ∧ byte ≠ 45 := by
    intro digits behind isDigits byte member
    obtain ⟨first, isFirst, digit⟩ := head?_of_isDigits isDigits behind
    rw [isFirst] at member
    cases member
    exact ne_sign_of_isDigit digit
  cases isMantissa with
  | whole isDigits => exact digit rest isDigits
  | pointed isDigits _ =>
    rw [List.append_assoc, List.append_assoc]
    exact digit _ isDigits
  | fraction =>
    rintro byte ⟨⟩
    decide

/-- The texts that `Decimal.read?` reads as decimals are the decimal literals, `IsLiteral`. -/
theorem read?_eq_some_iff {text : Text} {decimal : Decimal} :
    Decimal.read? text = some decimal ↔
      ∃ parts, IsLiteral text parts ∧ parts.decimal = decimal := by
  constructor
  · intro read
    obtain ⟨sign, isSign, isText⟩ := exists_sign text
    unfold Decimal.read? at read
    generalize Decimal.splitSign text = front at read isSign isText
    obtain ⟨negative, unsigned⟩ := front
    dsimp only at read isSign isText
    generalize isFraction : Decimal.splitFraction (unsigned.dropWhile isDigit) = back at read
    obtain ⟨fraction, rest⟩ := back
    dsimp only at read
    split at read
    · cases read
    · case isFalse filled =>
      obtain ⟨exponent, isExponent, isDecimal⟩ := Option.bind_eq_some_iff.mp read
      cases isDecimal
      obtain ⟨mantissa, isMantissa, isUnsigned⟩ := exists_mantissa unsigned isFraction filled
      obtain ⟨below, power, isPower, rfl⟩ := exponent?_eq_some_iff.mp isExponent
      have written : text = sign ++ mantissa ++ rest := by
        rw [isText, List.append_assoc]
        exact congrArg _ isUnsigned
      refine ⟨⟨negative, _, fraction, below, power⟩, ?_, rfl⟩
      rw [written]
      exact .intro isSign isMantissa isPower
  · rintro ⟨parts, isLiteral, rfl⟩
    obtain ⟨isSign, isMantissa, isPower⟩ := isLiteral
    rename_i sign mantissa power
    obtain ⟨isWhole, isFraction, filled⟩ := split_mantissa isMantissa isPower
    have exponent := exponent?_eq_some_iff.mpr ⟨_, _, isPower, rfl⟩
    unfold Decimal.read?
    rw [List.append_assoc, splitSign_append isSign (head?_of_isMantissa isMantissa power)]
    dsimp only
    rw [isWhole, isFraction]
    dsimp only
    rw [if_neg filled, exponent]
    rfl

/-! ### The bytes of a literal -/

/-- Whether a byte may stand in a decimal literal. -/
def isLiteralByte (byte : UInt8) : Bool :=
  (Text.ofString "0123456789+-.eE").contains byte

theorem isLiteralByte_of_isDigits {digits : Text}
    (isDigits : ∀ byte ∈ digits, isDigit byte = true) :
    ∀ byte ∈ digits, isLiteralByte byte = true := by
  intro byte member
  have each : (List.range 10).all (fun digit => isLiteralByte (Text.digitByte digit)) = true := rfl
  obtain ⟨digit, small, rfl⟩ := Text.exists_digitByte (isDigits byte member)
  exact List.all_eq_true.mp each digit (List.mem_range.mpr small)

theorem isLiteralByte_of_isSign {sign : Text} {negative : Bool} (isSign : IsSign sign negative) :
    ∀ byte ∈ sign, isLiteralByte byte = true := by
  cases isSign <;> exact List.all_eq_true.mp rfl

theorem isLiteralByte_of_isMantissa {mantissa whole fraction : Text}
    (isMantissa : IsMantissa mantissa whole fraction) :
    ∀ byte ∈ mantissa, isLiteralByte byte = true := by
  have point : ∀ byte ∈ Text.ofString ".", isLiteralByte byte = true :=
    List.all_eq_true.mp rfl
  cases isMantissa with
  | whole isDigits => exact isLiteralByte_of_isDigits isDigits.2
  | pointed isDigits others =>
    simp only [List.forall_mem_append]
    exact ⟨⟨isLiteralByte_of_isDigits isDigits.2, point⟩, isLiteralByte_of_isDigits others⟩
  | fraction isDigits =>
    exact List.forall_mem_append.mpr ⟨point, isLiteralByte_of_isDigits isDigits.2⟩

theorem isLiteralByte_of_isPower {power digits : Text} {below : Bool}
    (isPower : IsPower power below digits) : ∀ byte ∈ power, isLiteralByte byte = true := by
  cases isPower with
  | none => exact List.forall_mem_nil _
  | power isMark isSign isDigits =>
    simp only [List.forall_mem_append]
    refine ⟨⟨?_, isLiteralByte_of_isSign isSign⟩, isLiteralByte_of_isDigits isDigits.2⟩
    rcases isMark with rfl | rfl <;> exact List.all_eq_true.mp rfl

/-- A literal is made of digits, signs, points and marks of powers of ten. -/
theorem isLiteralByte_of_mem {text : Text} {parts : Parts} (isLiteral : IsLiteral text parts) :
    ∀ byte ∈ text, isLiteralByte byte = true := by
  obtain ⟨isSign, isMantissa, isPower⟩ := isLiteral
  simp only [List.forall_mem_append]
  exact ⟨⟨isLiteralByte_of_isSign isSign, isLiteralByte_of_isMantissa isMantissa⟩,
    isLiteralByte_of_isPower isPower⟩

/-- The bytes of decimal literals are those of ASCII characters other than white space, and none of
them is barred. -/
theorem of_isLiteralByte {byte : UInt8} (plain : isLiteralByte byte = true) :
    byte < 128 ∧ Text.isBlank (Char.ofNat byte.toNat) = false ∧ barred.contains byte = false := by
  have each : (Text.ofString "0123456789+-.eE").all (fun byte => decide (byte < 128) &&
      (!Text.isBlank (Char.ofNat byte.toNat) && !barred.contains byte)) = true := rfl
  have here := List.all_eq_true.mp each byte (List.contains_iff_mem.mp plain)
  simpa only [Bool.and_eq_true, Bool.not_eq_true', decide_eq_true_eq] using here

/-! ### Literals of all kinds -/

/-- Without an underscore every underscore of a literal stands where it may, so that it is
`separated`. -/
theorem separated_of_notMem (isDigit : UInt8 → Bool) (behindDigit : Bool) {text : Text}
    (none : (95 : UInt8) ∉ text) : Literal.separated isDigit behindDigit text = true := by
  induction text generalizing behindDigit with
  | nil => rfl
  | cons byte rest ih =>
    rw [Literal.separated, if_neg (List.ne_of_not_mem_cons none).symm]
    exact ih _ (List.not_mem_of_not_mem_cons none)

/-- A text without a letter is none of the words that have it. -/
theorem map_lower_ne {text word : Text} (letter : UInt8) (inWord : letter ∈ word)
    (notIn : ∀ byte ∈ text, Literal.lower byte ≠ letter) : text.map Literal.lower ≠ word := by
  rintro rfl
  obtain ⟨byte, member, same⟩ := List.mem_map.mp inWord
  exact notIn byte member same

/-- None of the bytes that only other literals have is in a text. -/
def Unbarred (text : Text) : Prop :=
  ∀ byte ∈ text, barred.contains byte = false

theorem eq_or_of_lower {byte letter : UInt8} (same : Literal.lower byte = letter) :
    byte = letter ∨ byte = letter - 32 := by
  unfold Literal.lower at same
  split at same
  · exact .inr (UInt8.eq_sub_iff_add_eq.mpr same)
  · exact .inl same

/-- No byte that is not barred is an underscore, a letter of all the words or the mark of a
hexadecimal literal. -/
theorem lower_of_unbarred {byte : UInt8} (unbarred : barred.contains byte = false) :
    byte ≠ 95 ∧ Literal.lower byte ≠ 110 ∧ Literal.lower byte ≠ 120 := by
  refine ⟨?_, fun same => ?_, fun same => ?_⟩
  · rintro rfl
    cases unbarred
  · rcases eq_or_of_lower same with rfl | rfl <;> cases unbarred
  · rcases eq_or_of_lower same with rfl | rfl <;> cases unbarred

theorem unbarred_splitSign {text : Text} (unbarred : Unbarred text) :
    Unbarred (Decimal.splitSign text).2 := by
  obtain ⟨sign, -, whole⟩ := exists_sign text
  intro byte member
  exact unbarred byte (whole ▸ List.mem_append_right _ member)

/-- The literals without a barred byte, `Unbarred`, are the decimal ones. -/
theorem value?_of_unbarred {text : Text} (unbarred : Unbarred text) :
    Literal.value? text = (Decimal.read? text).map Decimal.toFloat := by
  have unsigned := unbarred_splitSign unbarred
  have bytes := fun byte member => lower_of_unbarred (unbarred byte member)
  have others := fun byte member => lower_of_unbarred (unsigned byte member)
  have noWord : Literal.word? text = none := by
    unfold Literal.word?
    dsimp only
    rw [if_neg, if_neg]
    · exact map_lower_ne 110 (by decide) fun byte member => (bytes byte member).2.1
    · rintro (same | same)
      · exact map_lower_ne 110 (by decide)
          (fun byte member => (others byte member).2.1) same
      · exact map_lower_ne 110 (by decide)
          (fun byte member => (others byte member).2.1) same
  have noMark : Literal.hexadecimal? (Decimal.splitSign text).2 = none := by
    unfold Literal.hexadecimal?
    split
    · case h_1 mark rest same =>
      rw [same] at others
      exact if_neg fun marked => (others mark (by simp)).2.2 marked.1
    · rfl
  have fine : Literal.underscoresFine (Decimal.splitSign text).2 = true := by
    unfold Literal.underscoresFine
    rw [noMark]
    exact separated_of_notMem _ _ fun member => (others 95 member).1 rfl
  have kept : text.filter (· ≠ 95) = text :=
    List.filter_eq_self.mpr fun byte member => decide_eq_true (bytes byte member).1
  unfold Literal.value? Literal.separated?
  rw [noWord, if_pos fine, kept, Literal.plain?]
  dsimp only
  rw [noMark]
  rfl

end ScriptEngine.Number
