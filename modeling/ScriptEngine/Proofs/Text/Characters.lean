/-
This file proves that bytes and characters agree. The encoding of a character is read as that
character whatever follows, so characters that are written are read again; and the pieces of any
text, characters and stray bytes, write that text.
-/

import Mathlib
import ScriptEngine.Text.Utf8

namespace ScriptEngine.Text

/-! ### Reading characters that were written -/

theorem toNat_ofNat_of_lt {value : ℕ} (small : value < 256) :
    (UInt8.ofNat value).toNat = value := by
  rw [UInt8.toNat_ofNat']
  exact Nat.mod_eq_of_lt small

theorem toNat_lt_of_char (char : Char) : char.toNat < 0x110000 := by
  rcases char.valid with below | ⟨_, below⟩
  · exact below.trans (by decide)
  · exact below

/-- The payload of a leading byte and the bytes behind it spell the character, in each of the four
lengths. -/
theorem candidate?_encode (char : Char) (rest : Text) :
    candidate? (String.utf8EncodeChar char ++ rest) = some char := by
  have bound := toNat_lt_of_char char
  have self := Char.ofNat_toNat char
  unfold String.utf8EncodeChar
  generalize isPoint : char.val.toNat = point
  have same : char.toNat = point := isPoint
  rw [same] at bound self
  dsimp only
  split
  · case isTrue one =>
    have lead := toNat_ofNat_of_lt (show point < 256 by omega)
    simp only [List.cons_append, List.nil_append, candidate?, UInt8.lt_iff_toNat_lt, lead]
    rw [if_pos (by simp; omega), self]
  split
  · case isTrue two =>
    have lead := toNat_ofNat_of_lt (show point / 64 % 32 + 192 < 256 by omega)
    have second := toNat_ofNat_of_lt (show point % 64 + 128 < 256 by omega)
    have spelt : (point / 64 % 32 + 192) % 32 * 64 + (point % 64 + 128) % 64 = point := by omega
    simp only [List.cons_append, List.nil_append, candidate?, UInt8.lt_iff_toNat_lt, lead, second,
      List.take_succ_cons, List.take_zero, codePoint, List.foldl_cons, List.foldl_nil]
    rw [if_neg (by simp), if_neg (by simp), if_pos (by simp; omega), spelt, self]
  split
  · case isTrue three =>
    have lead := toNat_ofNat_of_lt (show point / 4096 % 16 + 224 < 256 by omega)
    have second := toNat_ofNat_of_lt (show point / 64 % 64 + 128 < 256 by omega)
    have third := toNat_ofNat_of_lt (show point % 64 + 128 < 256 by omega)
    have spelt : ((point / 4096 % 16 + 224) % 16 * 64 + (point / 64 % 64 + 128) % 64) * 64 +
        (point % 64 + 128) % 64 = point := by omega
    simp only [List.cons_append, List.nil_append, candidate?, UInt8.lt_iff_toNat_lt, lead, second,
      third, List.take_succ_cons, List.take_zero, codePoint, List.foldl_cons, List.foldl_nil]
    rw [if_neg (by simp), if_neg (by simp), if_neg (by simp), if_pos (by simp; omega), spelt, self]
  · have lead := toNat_ofNat_of_lt (show point / 262144 % 8 + 240 < 256 by omega)
    have second := toNat_ofNat_of_lt (show point / 4096 % 64 + 128 < 256 by omega)
    have third := toNat_ofNat_of_lt (show point / 64 % 64 + 128 < 256 by omega)
    have fourth := toNat_ofNat_of_lt (show point % 64 + 128 < 256 by omega)
    have spelt : (((point / 262144 % 8 + 240) % 8 * 64 + (point / 4096 % 64 + 128) % 64) * 64 +
        (point / 64 % 64 + 128) % 64) * 64 + (point % 64 + 128) % 64 = point := by omega
    simp only [List.cons_append, List.nil_append, candidate?, UInt8.lt_iff_toNat_lt, lead, second,
      third, fourth, List.take_succ_cons, List.take_zero, codePoint, List.foldl_cons,
      List.foldl_nil]
    rw [if_neg (by simp), if_neg (by simp), if_neg (by simp), if_neg (by simp), spelt, self]

theorem leading?_encode (char : Char) (rest : Text) :
    leading? (String.utf8EncodeChar char ++ rest) = some char := by
  unfold leading?
  rw [candidate?_encode, Option.filter_some, if_pos]
  exact List.isPrefixOf_iff_prefix.mpr (List.prefix_append _ _)

theorem piecesAfter_length (used rest : Text) :
    piecesAfter used.length (used ++ rest) = pieces rest := by
  induction used with
  | nil => rfl
  | cons byte used ih =>
    cases h : used ++ rest with
    | nil =>
      obtain ⟨rfl, rfl⟩ := List.append_eq_nil_iff.mp h
      rfl
    | cons next others =>
      rw [List.cons_append, List.length_cons]
      exact ih

/-- The encoding of a character is the first of the `pieces`, whatever follows. -/
theorem pieces_encode_append (char : Char) (rest : Text) :
    pieces (String.utf8EncodeChar char ++ rest) = .char char :: pieces rest := by
  have leading := leading?_encode char rest
  obtain ⟨first, others, encoded⟩ :=
    List.exists_cons_of_ne_nil (String.utf8EncodeChar_ne_nil (c := char))
  rw [encoded, List.cons_append] at leading ⊢
  have skipped := piecesAfter_length others rest
  unfold pieces
  rw [piecesAfter, leading]
  dsimp only
  rw [encoded, List.length_cons, Nat.add_sub_cancel]
  exact congrArg _ skipped

theorem pieces_ofChars_append (chars : List Char) (rest : Text) :
    pieces (ofChars chars ++ rest) = chars.map .char ++ pieces rest := by
  induction chars with
  | nil => rfl
  | cons char others ih =>
    rw [ofChars_cons, List.append_assoc, pieces_encode_append, ih]
    rfl

/-- Characters that `ofChars` writes are read again, whatever is behind them. -/
theorem chars_ofChars_append (source : List Char) (rest : Text) :
    chars (ofChars source ++ rest) = source ++ chars rest := by
  unfold chars
  rw [pieces_ofChars_append, List.map_append, List.map_map]
  exact congrArg (· ++ _) (List.map_id source)

theorem chars_ofChars (source : List Char) : chars (ofChars source) = source := by
  have whole := chars_ofChars_append source []
  rwa [List.append_nil, show chars [] = [] from rfl, List.append_nil] at whole

/-- A text that its characters write is read behind any characters. -/
theorem chars_append_of_written {text : Text} (written : ofChars (chars text) = text)
    (rest : Text) : chars (text ++ rest) = chars text ++ chars rest := by
  have whole := chars_ofChars_append (chars text) rest
  rwa [written] at whole

/-! ### Writing pieces that were read -/

theorem ofPieces_piecesAfter (skip : ℕ) (text : Text) :
    ofPieces (piecesAfter skip text) = text.drop skip := by
  induction text generalizing skip with
  | nil => cases skip <;> rfl
  | cons byte rest ih =>
    cases skip with
    | succ skip => exact ih skip
    | zero =>
      rw [piecesAfter]
      cases found : leading? (byte :: rest) with
      | none =>
        show byte :: ofPieces (piecesAfter 0 rest) = _
        rw [ih 0, List.drop_zero, List.drop_zero]
      | some char =>
        obtain ⟨-, starts⟩ := Option.filter_eq_some_iff.mp found
        obtain ⟨others, whole⟩ := List.isPrefixOf_iff_prefix.mp starts
        show String.utf8EncodeChar char ++ ofPieces (piecesAfter _ rest) = _
        obtain ⟨first, behind, encoded⟩ :=
          List.exists_cons_of_ne_nil (String.utf8EncodeChar_ne_nil (c := char))
        rw [encoded, List.cons_append] at whole
        obtain ⟨rfl, rfl⟩ := List.cons_eq_cons.mp whole
        rw [ih, encoded, List.length_cons, Nat.add_sub_cancel, List.drop_left, List.drop_zero,
          List.cons_append]

/-- The `pieces` of a text write it. -/
theorem ofPieces_pieces (text : Text) : ofPieces (pieces text) = text := by
  unfold pieces
  rw [ofPieces_piecesAfter, List.drop_zero]

/-- A text without a replacement character among its characters is what those characters write. -/
theorem ofChars_chars {text : Text} (sound : '\uFFFD' ∉ chars text) :
    ofChars (chars text) = text := by
  have written : ∀ found : List Piece, '\uFFFD' ∉ found.map Piece.shown →
      ofChars (found.map Piece.shown) = ofPieces found := by
    intro found absent
    induction found with
    | nil => rfl
    | cons piece rest ih =>
      rw [List.map_cons, List.mem_cons, not_or] at absent
      cases piece with
      | stray byte => exact absurd rfl absent.1
      | char value =>
        rw [List.map_cons, ofChars_cons, ih absent.2]
        rfl
  exact (written _ sound).trans (ofPieces_pieces text)

/-! ### Well-formed texts -/

/-- The pieces of a text that `isUtf8` are characters, and writing these gives the text. -/
theorem exists_of_isUtf8 {text : Text} (utf8 : text.isUtf8) : ∃ source, text = ofChars source := by
  unfold isUtf8 at utf8
  rw [← ofPieces_pieces text]
  generalize pieces text = found at utf8 ⊢
  induction found with
  | nil => exact ⟨[], rfl⟩
  | cons piece rest ih =>
    rw [List.all_cons, Bool.and_eq_true] at utf8
    obtain ⟨source, others⟩ := ih utf8.2
    cases piece with
    | stray byte => exact absurd utf8.1 Bool.false_ne_true
    | char value =>
      refine ⟨value :: source, ?_⟩
      rw [ofChars_cons, ← others]
      rfl

theorem isUtf8_append {first second : Text} (utf8 : first.isUtf8) (others : second.isUtf8) :
    (first ++ second).isUtf8 := by
  obtain ⟨source, rfl⟩ := exists_of_isUtf8 utf8
  unfold isUtf8 at others ⊢
  rw [pieces_ofChars_append, List.all_append, others, Bool.and_true, List.all_map]
  exact List.all_eq_true.mpr fun _ _ => rfl

/-- A text in well-formed pieces is well-formed. -/
theorem isUtf8_flatten {texts : List Text} (utf8 : texts.all isUtf8) :
    isUtf8 (List.flatten texts) := by
  induction texts with
  | nil => rfl
  | cons text rest ih =>
    rw [List.all_cons, Bool.and_eq_true] at utf8
    rw [List.flatten_cons]
    exact isUtf8_append utf8.1 (ih utf8.2)

/-! ### Characters of one byte -/

theorem utf8EncodeChar_of_ascii {char : Char} (ascii : char.toNat < 128) :
    String.utf8EncodeChar char = [char.toNat.toUInt8] := by
  unfold String.utf8EncodeChar
  have one : char.val.toNat ≤ 127 := Nat.le_of_lt_succ ascii
  dsimp only
  rw [if_pos one]
  rfl

/-- The characters of a text whose bytes are one each. -/
def asciiChars (text : Text) : List Char := text.map fun byte => Char.ofNat byte.toNat

theorem toNat_ofNat_of_ascii {byte : UInt8} (ascii : byte < 128) :
    (Char.ofNat byte.toNat).toNat = byte.toNat := by
  have small : byte.toNat < 128 := UInt8.lt_iff_toNat_lt.mp ascii
  have valid : byte.toNat.isValidChar := Or.inl (small.trans (by decide))
  unfold Char.ofNat
  rw [dif_pos valid]
  exact Char.toNat_ofNatAux valid

theorem ofChars_asciiChars {text : Text} (ascii : ∀ byte ∈ text, byte < 128) :
    ofChars (asciiChars text) = text := by
  induction text with
  | nil => rfl
  | cons byte rest ih =>
    have small := ascii byte List.mem_cons_self
    have point := toNat_ofNat_of_ascii small
    have below : byte.toNat < 128 := UInt8.lt_iff_toNat_lt.mp small
    have others := ih fun other member => ascii other (List.mem_cons_of_mem _ member)
    unfold asciiChars at others ⊢
    rw [List.map_cons, ofChars_cons, utf8EncodeChar_of_ascii (by omega), point, others]
    simp

end ScriptEngine.Text
