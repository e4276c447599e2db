/-
This file proves that quoting loses nothing. What is written between the quotes is described as
characters: each piece of a text, a character or a stray byte, has an escape, which is the
character itself or a backslash with some plain characters behind it. Reading takes the escapes
one after another and gives the text back, and a search for the closing quote passes over each.
-/

import Mathlib
import ScriptEngine.Assembly.Lexer
import ScriptEngine.Proofs.Text.Characters
import ScriptEngine.Text.Quoted

namespace ScriptEngine.Text.Quoted

open ScriptEngine.Assembly (closingLength)

/-! ### Hexadecimal digits -/

/-- The low hexadecimal digits of a number as characters. -/
def hexChars : (width : ℕ) → (value : ℕ) → List Char
  | 0, _ => []
  | width + 1, value => hexChars width (value / 16) ++ [Nat.digitChar (value % 16)]

theorem toNat_digitChar_lt : ∀ digit < 16, (Nat.digitChar digit).toNat < 128 := by decide

theorem hexValue?_digitChar : ∀ digit < 16, hexValue? (Nat.digitChar digit) = some digit := by
  decide

theorem ofHex_eq (width value : ℕ) : ofHex width value = ofChars (hexChars width value) := by
  induction width generalizing value with
  | zero => rfl
  | succ width ih =>
    have ascii := toNat_digitChar_lt (value % 16) (Nat.mod_lt _ (by decide))
    rw [ofHex, hexChars, ofChars_append, ih, ofChars_cons, utf8EncodeChar_of_ascii ascii]
    rfl

theorem digitsValue?_hexChars (width value : ℕ) :
    digitsValue? 16 hexValue? (hexChars width value) = some (value % 16 ^ width) := by
  induction width generalizing value with
  | zero => simp [hexChars, digitsValue?, Nat.mod_one]
  | succ width ih =>
    have spelt : digitsValue? 16 hexValue? (hexChars (width + 1) value) =
        (digitsValue? 16 hexValue? (hexChars width (value / 16))).bind fun high =>
          (hexValue? (Nat.digitChar (value % 16))).bind fun low => some (high * 16 + low) := by
      unfold digitsValue?
      rw [hexChars, List.foldl_append]
      rfl
    rw [spelt, ih, hexValue?_digitChar _ (Nat.mod_lt _ (by decide)), Option.bind_some,
      Option.bind_some, pow_succ', Nat.mod_mul]
    congr 1
    ring

/-! ### Escapes -/

/-- The characters that stand for a character between the quotes. -/
def escapeChar (char : Char) : List Char :=
  if char = '"' ∨ char = '\\' then ['\\', char]
  else if isPrintable char then [char]
  else match shortEscape? char with
    | some letter => ['\\', letter]
    | none =>
      if char.toNat < 0x20 ∨ char.toNat = 0x7F then '\\' :: 'x' :: hexChars 2 char.toNat
      else if char.toNat < 0x10000 then '\\' :: 'u' :: hexChars 4 char.toNat
      else '\\' :: 'U' :: hexChars 8 char.toNat

/-- The characters that stand for a piece of text between the quotes. -/
def escape : Piece → List Char
  | .char value => escapeChar value
  | .stray byte => '\\' :: 'x' :: hexChars 2 byte.toNat

/-- The characters between the quotes of a text. -/
def inner (text : Text) : List Char := (pieces text).flatMap escape

theorem encodeChar_eq (char : Char) : encodeChar char = ofChars (escapeChar char) := by
  unfold encodeChar escapeChar
  split
  · rfl
  split
  · rw [ofChars_cons, ofChars_nil, List.append_nil]
  cases shortEscape? char with
  | some letter => rfl
  | none =>
    dsimp only
    split
    · rw [ofHex_eq, ← ofChars_append]
      rfl
    split
    · rw [ofHex_eq, ← ofChars_append]
      rfl
    · rw [ofHex_eq, ← ofChars_append]
      rfl

theorem encodePiece_eq (piece : Piece) : encodePiece piece = ofChars (escape piece) := by
  cases piece with
  | char value => exact encodeChar_eq value
  | stray byte =>
    rw [encodePiece, escape, ofHex_eq, ← ofChars_append]
    rfl

/-- A text between quotes as characters: the `inner` ones and the quotes. -/
theorem encode_eq (text : Text) : encode text = ofChars ('"' :: inner text ++ ['"']) := by
  have escapes : ∀ found : List Piece,
      found.flatMap encodePiece = ofChars (found.flatMap escape) := by
    intro found
    induction found with
    | nil => rfl
    | cons piece rest ih => rw [List.flatMap_cons, List.flatMap_cons, ofChars_append, ih,
        encodePiece_eq]
  unfold encode inner
  rw [escapes, ofChars_append, ofChars_cons]
  rfl

/-! ### Reading escapes -/

theorem utf8EncodeChar_eq_of_toNat {char : Char} {value : UInt8} (ascii : char.toNat < 128)
    (same : char.toNat = value.toNat) : String.utf8EncodeChar char = [value] := by
  rw [utf8EncodeChar_of_ascii ascii, same]
  simp

/-- A one-letter escape of `shortEscape?` is read by `shortValue?` as the character it was written
for. -/
theorem shortValue?_of_shortEscape? {char letter : Char}
    (short : shortEscape? char = some letter) :
    ∃ value, shortValue? letter = some value ∧ String.utf8EncodeChar char = [value] ∧
      letter ≠ 'x' ∧ letter ≠ 'u' ∧ letter ≠ 'U' ∧ letter ≠ '\n' := by
  unfold shortEscape? at short
  split at short
  all_goals cases short
  · case h_1 same => exact ⟨7, rfl, utf8EncodeChar_eq_of_toNat (by omega) same, by decide⟩
  · case h_2 same => exact ⟨8, rfl, utf8EncodeChar_eq_of_toNat (by omega) same, by decide⟩
  · case h_3 same => exact ⟨12, rfl, utf8EncodeChar_eq_of_toNat (by omega) same, by decide⟩
  · case h_4 same => exact ⟨10, rfl, utf8EncodeChar_eq_of_toNat (by omega) same, by decide⟩
  · case h_5 same => exact ⟨13, rfl, utf8EncodeChar_eq_of_toNat (by omega) same, by decide⟩
  · case h_6 same => exact ⟨9, rfl, utf8EncodeChar_eq_of_toNat (by omega) same, by decide⟩
  · case h_7 same => exact ⟨11, rfl, utf8EncodeChar_eq_of_toNat (by omega) same, by decide⟩

theorem decode_short {letter : Char} {value : UInt8} (rest : List Char) (notByte : letter ≠ 'x')
    (notFour : letter ≠ 'u') (notEight : letter ≠ 'U') (short : shortValue? letter = some value) :
    decode ('\\' :: letter :: rest) = (decode rest).map ([value] ++ ·) := by
  have whole : decode ('\\' :: letter :: rest) = (do return value :: (← decode rest)) := by
    rcases rest with _ | ⟨second, _ | ⟨third, rest⟩⟩
    · simp [decode, short]
    · simp [decode, short]
    · simp [decode, short, notByte, notFour, notEight]
  rw [whole]
  cases decode rest <;> rfl

theorem decode_byte {value : ℕ} (small : value < 256) (rest : List Char) :
    decode ('\\' :: 'x' :: hexChars 2 value ++ rest) =
      (decode rest).map ([value.toUInt8] ++ ·) := by
  have digits := digitsValue?_hexChars 2 value
  rw [Nat.mod_eq_of_lt (show value < 16 ^ 2 from small)] at digits
  simp only [hexChars, List.nil_append, List.cons_append] at digits ⊢
  change (do
    let value ← digitsValue? 16 hexValue? _
    return value.toUInt8 :: (← decode rest)) = _
  rw [digits]
  cases decode rest <;> rfl

theorem scalar?_toNat (char : Char) : scalar? char.toNat = some (String.utf8EncodeChar char) := by
  have valid : char.toNat.isValidChar := char.valid
  unfold scalar?
  rw [if_pos valid, Char.ofNat_toNat]

theorem decode_four {char : Char} (small : char.toNat < 0x10000) (rest : List Char) :
    decode ('\\' :: 'u' :: hexChars 4 char.toNat ++ rest) =
      (decode rest).map (String.utf8EncodeChar char ++ ·) := by
  have digits := digitsValue?_hexChars 4 char.toNat
  rw [Nat.mod_eq_of_lt (show char.toNat < 16 ^ 4 from small)] at digits
  simp only [hexChars, List.nil_append, List.cons_append] at digits ⊢
  change (do
    let bytes ← scalar? (← digitsValue? 16 hexValue? _)
    return bytes ++ (← decode rest)) = _
  rw [digits, Option.bind_eq_bind, Option.bind_some, scalar?_toNat]
  cases decode rest <;> rfl

theorem decode_eight (char : Char) (rest : List Char) :
    decode ('\\' :: 'U' :: hexChars 8 char.toNat ++ rest) =
      (decode rest).map (String.utf8EncodeChar char ++ ·) := by
  have digits := digitsValue?_hexChars 8 char.toNat
  rw [Nat.mod_eq_of_lt ((toNat_lt_of_char char).trans (by norm_num))] at digits
  simp only [hexChars, List.nil_append, List.cons_append] at digits ⊢
  change (do
    let bytes ← scalar? (← digitsValue? 16 hexValue? _)
    return bytes ++ (← decode rest)) = _
  rw [digits, Option.bind_eq_bind, Option.bind_some, scalar?_toNat]
  cases decode rest <;> rfl

theorem decode_plain {char : Char} (notEscape : char ≠ '\\') (notQuote : char ≠ '"')
    (rest : List Char) :
    decode (char :: rest) = (decode rest).map (String.utf8EncodeChar char ++ ·) := by
  have whole : decode (char :: rest) =
      (do return String.utf8EncodeChar char ++ (← decode rest)) := by
    rw [decode]
    all_goals simp [notEscape, notQuote]
  rw [whole]
  cases decode rest <;> rfl

theorem decode_escape (piece : Piece) (rest : List Char) :
    decode (escape piece ++ rest) = (decode rest).map (piece.bytes ++ ·) := by
  cases piece with
  | stray byte =>
    have whole := decode_byte byte.toNat_lt rest
    rw [Nat.toUInt8_eq, UInt8.ofNat_toNat] at whole
    exact whole
  | char value =>
    unfold escape escapeChar Piece.bytes
    dsimp only
    split
    · case isTrue quoted =>
      rcases quoted with rfl | rfl
      · exact decode_short rest (by decide) (by decide) (by decide) rfl
      · exact decode_short rest (by decide) (by decide) (by decide) rfl
    rename_i notQuoted
    rw [not_or] at notQuoted
    split
    · exact decode_plain notQuoted.2 notQuoted.1 rest
    cases short : shortEscape? value with
    | some letter =>
      obtain ⟨byte, denotes, encoded, notByte, notFour, notEight, -⟩ :=
        shortValue?_of_shortEscape? short
      rw [encoded]
      exact decode_short rest notByte notFour notEight denotes
    | none =>
      dsimp only
      split
      · case isTrue control =>
        rw [utf8EncodeChar_of_ascii (by omega)]
        exact decode_byte (by omega) rest
      split
      · case isTrue small => exact decode_four small rest
      · exact decode_eight value rest

/-- What stands between the quotes of a text, its `inner` characters, denotes the text. -/
theorem decode_inner (text : Text) : decode (inner text) = some text := by
  have pieces : ∀ found : List Piece, decode (found.flatMap escape) = some (ofPieces found) := by
    intro found
    induction found with
    | nil => rfl
    | cons piece rest ih =>
      rw [List.flatMap_cons, decode_escape, ih]
      rfl
  rw [inner, pieces, ofPieces_pieces]

/-! ### The closing quote -/

/-- A character that a search for the closing quote passes over. -/
def Passive (char : Char) : Prop := char ≠ '\n' ∧ char ≠ '\\' ∧ char ≠ '"'

theorem closingLength_passive {source : List Char} (passive : ∀ char ∈ source, Passive char)
    (rest : List Char) :
    closingLength false (source ++ rest) = (closingLength false rest).map (· + source.length) := by
  induction source with
  | nil => simp
  | cons char others ih =>
    obtain ⟨notEnd, notEscape, notQuote⟩ := passive char List.mem_cons_self
    rw [List.cons_append, closingLength, if_neg notEnd, if_neg (by simp), if_neg notEscape,
      if_neg notQuote, ih fun other member => passive other (List.mem_cons_of_mem _ member),
      Option.map_map]
    rfl

theorem closingLength_escaped {letter : Char} {source : List Char} (notEnd : letter ≠ '\n')
    (passive : ∀ char ∈ source, Passive char) (rest : List Char) :
    closingLength false ('\\' :: letter :: source ++ rest) =
      (closingLength false rest).map (· + (source.length + 2)) := by
  rw [List.cons_append, List.cons_append, closingLength, if_neg (by decide), if_neg (by simp),
    if_pos rfl, closingLength, if_neg notEnd, if_pos rfl, closingLength_passive passive,
    Option.map_map, Option.map_map]
  rfl

theorem passive_hexChars (width value : ℕ) : ∀ char ∈ hexChars width value, Passive char := by
  have digits : ∀ digit < 16, Passive (Nat.digitChar digit) := by
    unfold Passive
    decide
  induction width generalizing value with
  | zero => simp [hexChars]
  | succ width ih =>
    intro char member
    rcases List.mem_append.mp member with before | last
    · exact ih _ char before
    · rw [List.mem_singleton.mp last]
      exact digits _ (Nat.mod_lt _ (by decide))

theorem closingLength_escape (piece : Piece) (rest : List Char) :
    closingLength false (escape piece ++ rest) =
      (closingLength false rest).map (· + (escape piece).length) := by
  cases piece with
  | stray byte => exact closingLength_escaped (by decide) (passive_hexChars 2 _) rest
  | char value =>
    unfold escape escapeChar
    dsimp only
    split
    · case isTrue quoted =>
      refine closingLength_escaped ?_ (List.forall_mem_nil _) rest
      rcases quoted with rfl | rfl <;> decide
    rename_i notQuoted
    rw [not_or] at notQuoted
    split
    · case isTrue printable =>
      have notEnd : value ≠ '\n' := by
        rintro rfl
        exact absurd printable (by decide)
      exact closingLength_passive
        (List.forall_mem_singleton.mpr ⟨notEnd, notQuoted.2, notQuoted.1⟩) rest
    cases short : shortEscape? value with
    | some letter =>
      obtain ⟨-, -, -, -, -, -, notEnd⟩ := shortValue?_of_shortEscape? short
      exact closingLength_escaped notEnd (List.forall_mem_nil _) rest
    | none =>
      dsimp only
      split
      · exact closingLength_escaped (by decide) (passive_hexChars 2 _) rest
      split
      · exact closingLength_escaped (by decide) (passive_hexChars 4 _) rest
      · exact closingLength_escaped (by decide) (passive_hexChars 8 _) rest

/-- `closingLength` stops at the closing quote that quoting wrote. -/
theorem closingLength_inner (text : Text) (rest : List Char) :
    closingLength false (inner text ++ '"' :: rest) = some ((inner text).length + 1) := by
  have pieces : ∀ found : List Piece, closingLength false (found.flatMap escape ++ '"' :: rest) =
      some ((found.flatMap escape).length + 1) := by
    intro found
    induction found with
    | nil => rfl
    | cons piece others ih =>
      rw [List.flatMap_cons, List.append_assoc, closingLength_escape, ih, Option.map_some,
        List.length_append]
      congr 1
      omega
  exact pieces _

end ScriptEngine.Text.Quoted
