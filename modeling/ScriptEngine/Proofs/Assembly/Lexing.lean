/-
This file is about sources that are written token by token. A written token is a scrap of text;
the lexer cuts a row of scraps into just these scraps again, provided that no two of them run
together. Words and numbers run into a following word or number, blanks into a following blank,
and nothing else does.
-/

import Mathlib
import ScriptEngine.Assembly.Lexer
import ScriptEngine.Proofs.Text.Quoting

namespace ScriptEngine

open Text (within isBlank isLetter isDecimalDigit blankRanges letterRanges decimalDigitRanges
  ofChars chars)

/-! ### Classes of characters -/

namespace Text

/-- The code points in some ranges. -/
def points (ranges : List (ℕ × ℕ)) : List ℕ :=
  ranges.flatMap fun range => List.range' range.1 (range.2 + 1 - range.1)

theorem mem_points_of_within {ranges : List (ℕ × ℕ)} {point : ℕ}
    (found : within ranges point = true) : point ∈ points ranges := by
  induction ranges with
  | nil => cases found
  | cons range rest ih =>
    rw [within] at found
    split at found
    · cases found
    rename_i above
    refine List.mem_append.mpr ?_
    rcases Bool.or_eq_true_iff.mp found with here | later
    · have below : point ≤ range.2 := of_decide_eq_true here
      exact Or.inl (List.mem_range'_1.mpr (by omega))
    · exact Or.inr (ih later)

theorem isBlank_of_isIdentifier {char : Char}
    (member : isLetter char = true ∨ isDecimalDigit char = true) : isBlank char = false := by
  by_contra blank
  rw [Bool.not_eq_false] at blank
  have outside : ∀ point ∈ points blankRanges,
      within letterRanges point = false ∧ within decimalDigitRanges point = false := by
    decide +kernel
  obtain ⟨noLetter, noDigit⟩ := outside _ (mem_points_of_within blank)
  rcases member with letter | digit
  · exact Bool.false_ne_true (noLetter.symm.trans letter)
  · exact Bool.false_ne_true (noDigit.symm.trans digit)

end Text

namespace Assembly

/-- A line end, and what starts a comment, a text or a symbol, is in no identifier and no blank. -/
theorem isIdentifierChar_special (char : Char)
    (special : char ∈ ['\n', '#', ';', '"', '(', ')', ',', ':', '@']) :
    isIdentifierChar char = false ∧ isLineBlank char = false := by
  fin_cases special <;> decide

/-- Numbers are made of digits and of characters that are none but can be in an identifier. -/
theorem isIdentifierChar_numeral (char : Char) (other : char ∈ ['e', 'E', '.', '-', '+']) :
    isIdentifierChar char = true ∧ isDecimalDigit char = false := by
  fin_cases other <;> decide

/-- A character that an identifier can hold starts no lexeme of another sort but a number. -/
theorem not_special_of_isIdentifierChar {char : Char} (member : isIdentifierChar char = true) :
    char ≠ '\n' ∧ isBlank char = false ∧ ¬ (char = '#' ∨ char = ';') ∧ char ≠ '"' ∧
      isSymbolChar char = false := by
  have blank : isBlank char = false := by
    simp only [isIdentifierChar, Bool.or_eq_true, decide_eq_true_eq] at member
    rcases member with (((((letter | digit) | rfl) | rfl) | rfl) | rfl) | rfl
    · exact Text.isBlank_of_isIdentifier (Or.inl letter)
    · exact Text.isBlank_of_isIdentifier (Or.inr digit)
    all_goals decide
  have other : ∀ special ∈ ['\n', '#', ';', '"', '(', ')', ',', ':', '@'], char ≠ special := by
    rintro special among rfl
    exact Bool.false_ne_true ((isIdentifierChar_special char among).1.symm.trans member)
  refine ⟨other _ (by simp), blank, ?_, other _ (by simp), ?_⟩
  · rintro (hash | semicolon)
    · exact other '#' (by simp) hash
    · exact other ';' (by simp) semicolon
  · simp only [isSymbolChar, Bool.or_eq_false_iff, decide_eq_false_iff_not]
    exact ⟨⟨⟨⟨other _ (by simp), other _ (by simp)⟩, other _ (by simp)⟩, other _ (by simp)⟩,
      other _ (by simp)⟩

-- The ranges of letters are searched one after another, which is deeper than the default limit.
set_option maxRecDepth 16000 in
/-- The character that stands for a stray byte is in no identifier. -/
theorem isIdentifierChar_replacement : isIdentifierChar '\uFFFD' = false := by decide

theorem isIdentifierChar_of_isDecimalDigit {char : Char} (digit : isDecimalDigit char = true) :
    isIdentifierChar char = true := by
  simp [isIdentifierChar, digit]

/-! ### Words and numbers -/

/-- Whether characters are a single identifier. -/
def isWord : List Char → Bool
  | [] => false
  | char :: rest =>
    (char :: rest).all isIdentifierChar && !isDecimalDigit char &&
      !((char = '-' || char = '+') && startsUnsigned rest)

/-- Whether characters are a single number, without a plus sign in front. -/
def isNumeral : List Char → Bool
  | [] => false
  | char :: rest =>
    (isDecimalDigit char || char = '-' && startsUnsigned rest) &&
      numberLength false rest = rest.length

/-- What follows cannot continue a word or a number. -/
def Ends (follow : List Char) : Prop :=
  ∀ char ∈ follow.head?, isIdentifierChar char = false

theorem runLength_append {belongs : Char → Bool} {run follow : List Char}
    (all : ∀ char ∈ run, belongs char = true) (ends : ∀ char ∈ follow.head?, belongs char = false) :
    runLength belongs (run ++ follow) = run.length := by
  have stops : follow.takeWhile belongs = [] := by
    cases follow with
    | nil => rfl
    | cons char rest => rw [List.takeWhile_cons, ends char rfl, if_neg Bool.false_ne_true]
  unfold runLength
  rw [List.takeWhile_append_of_pos all, stops, List.append_nil]

theorem startsUnsigned_append {run follow : List Char} (ends : Ends follow) :
    startsUnsigned (run ++ follow) = startsUnsigned run := by
  cases run with
  | cons char rest => rfl
  | nil =>
    cases follow with
    | nil => rfl
    | cons char rest =>
      have other := ends char rfl
      simp only [isIdentifierChar, Bool.or_eq_false_iff] at other
      obtain ⟨⟨⟨⟨⟨⟨-, digit⟩, -⟩, -⟩, dot⟩, -⟩, -⟩ := other
      exact (congrArg₂ _ digit dot).trans (Bool.false_or _)

theorem numberLength_append {run follow : List Char} {behindExponent : Bool} (ends : Ends follow)
    (whole : numberLength behindExponent run = run.length) :
    numberLength behindExponent (run ++ follow) = run.length := by
  induction run generalizing behindExponent with
  | nil =>
    cases follow with
    | nil => rfl
    | cons char rest =>
      have other := ends char rfl
      have letters : char ≠ 'e' ∧ char ≠ 'E' := by
        constructor <;> rintro rfl <;> exact absurd other (by decide)
      simp only [isIdentifierChar, Bool.or_eq_false_iff, decide_eq_false_iff_not] at other
      simp [numberLength, other, letters]
  | cons char rest ih =>
    rw [numberLength, List.length_cons] at whole
    rw [List.cons_append, numberLength, List.length_cons]
    split at whole
    · case isTrue letter => rw [if_pos letter, ih (Nat.succ_injective whole)]
    rename_i notLetter
    split at whole
    · case isTrue digit => rw [if_neg notLetter, if_pos digit, ih (Nat.succ_injective whole)]
    · omega

theorem lexemeAt_word {char : Char} {rest follow : List Char} (word : isWord (char :: rest) = true)
    (ends : Ends follow) : lexemeAt char (rest ++ follow) = (.identifier, rest.length) := by
  simp only [isWord, Bool.and_eq_true, Bool.not_eq_true', List.all_eq_true] at word
  obtain ⟨⟨all, notDigit⟩, unsigned⟩ := word
  obtain ⟨notEnd, notBlank, notComment, notQuote, notSymbol⟩ :=
    not_special_of_isIdentifierChar (all char List.mem_cons_self)
  have run := runLength_append (fun other member => all other (List.mem_cons_of_mem _ member)) ends
  unfold lexemeAt
  rw [if_neg notEnd, notBlank, if_neg Bool.false_ne_true, if_neg notComment, if_neg notQuote,
    notDigit, if_neg Bool.false_ne_true, startsUnsigned_append ends, notSymbol,
    if_neg Bool.false_ne_true, all char List.mem_cons_self, if_pos rfl, run]
  split
  · case isTrue sign =>
    have notNumber : startsUnsigned rest = false := by simpa [sign] using unsigned
    rw [notNumber, if_neg Bool.false_ne_true]
  · rfl

theorem lexemeAt_numeral {char : Char} {rest follow : List Char}
    (numeral : isNumeral (char :: rest) = true) (ends : Ends follow) :
    lexemeAt char (rest ++ follow) = (.number, rest.length) := by
  simp only [isNumeral, Bool.and_eq_true, Bool.or_eq_true, decide_eq_true_eq] at numeral
  obtain ⟨first, whole⟩ := numeral
  have run := numberLength_append ends whole
  have member : isIdentifierChar char = true := by
    rcases first with digit | ⟨rfl, -⟩
    · exact isIdentifierChar_of_isDecimalDigit digit
    · exact (isIdentifierChar_numeral '-' (by simp)).1
  obtain ⟨notEnd, notBlank, notComment, notQuote, -⟩ := not_special_of_isIdentifierChar member
  unfold lexemeAt
  rw [if_neg notEnd, notBlank, if_neg Bool.false_ne_true, if_neg notComment, if_neg notQuote, run,
    startsUnsigned_append ends]
  rcases first with digit | ⟨rfl, unsigned⟩
  · rw [digit, if_pos rfl]
  · rw [unsigned, (isIdentifierChar_numeral '-' (by simp)).2, if_neg Bool.false_ne_true,
      if_pos (Or.inl rfl), if_pos rfl]

/-- Numbers are made of characters that identifiers can hold. -/
theorem isIdentifierChar_of_numberLength {run : List Char} {behindExponent : Bool}
    (whole : numberLength behindExponent run = run.length) :
    ∀ char ∈ run, isIdentifierChar char = true := by
  induction run generalizing behindExponent with
  | nil => exact List.forall_mem_nil _
  | cons char rest ih =>
    rw [numberLength, List.length_cons] at whole
    refine List.forall_mem_cons.mpr ?_
    split at whole
    · case isTrue letter =>
      refine ⟨?_, ih (Nat.succ_injective whole)⟩
      exact (isIdentifierChar_numeral char (by rcases letter with rfl | rfl <;> simp)).1
    split at whole
    · case isTrue other =>
      refine ⟨?_, ih (Nat.succ_injective whole)⟩
      rcases other with digit | point | ⟨-, sign⟩
      · exact isIdentifierChar_of_isDecimalDigit digit
      · exact (isIdentifierChar_numeral char (by simp [point])).1
      · exact (isIdentifierChar_numeral char (by rcases sign with rfl | rfl <;> simp)).1
    · omega

theorem isIdentifierChar_of_isNumeral {source : List Char} (numeral : isNumeral source = true) :
    ∀ char ∈ source, isIdentifierChar char = true := by
  cases source with
  | nil => cases numeral
  | cons char rest =>
    simp only [isNumeral, Bool.and_eq_true, Bool.or_eq_true, decide_eq_true_eq] at numeral
    obtain ⟨first, whole⟩ := numeral
    refine List.forall_mem_cons.mpr ⟨?_, isIdentifierChar_of_numberLength whole⟩
    rcases first with digit | ⟨rfl, -⟩
    · exact isIdentifierChar_of_isDecimalDigit digit
    · exact (isIdentifierChar_numeral '-' (by simp)).1

theorem isIdentifierChar_of_isWord {source : List Char} (word : isWord source = true) :
    ∀ char ∈ source, isIdentifierChar char = true := by
  cases source with
  | nil => cases word
  | cons char rest =>
    simp only [isWord, Bool.and_eq_true, List.all_eq_true] at word
    exact word.1.1

/-- A text that shows only characters of identifiers has no stray bytes. -/
theorem ofChars_chars_of_identifier {text : Text}
    (all : ∀ char ∈ chars text, isIdentifierChar char = true) : ofChars (chars text) = text := by
  refine Text.ofChars_chars fun member => ?_
  have replacement := isIdentifierChar_replacement
  rw [all _ member] at replacement
  cases replacement

/-! ### Scraps -/

/-- A written token, or a blank. -/
inductive Scrap where
  | blank (char : Char)
  | word (text : Text)
  | numeral (text : Text)
  | quoted (text : Text)
  | symbol (char : Char)

/-- The kind of a token and what it stands for, without its place. -/
abbrev Word := TokenKind × Text

/-- A token without its place. -/
def Token.word (token : Token) : Word := (token.kind, token.text)

namespace Scrap

/-- How a scrap is written. -/
def text : Scrap → Text
  | .blank char | .symbol char => ofChars [char]
  | .word text | .numeral text => text
  | .quoted text => Text.Quoted.encode text

/-- The token of a scrap. -/
def word? : Scrap → Option Word
  | .blank _ => none
  | .word text => some (.identifier, text)
  | .numeral text => some (.number, text)
  | .quoted text => some (.text, text)
  | .symbol char => some (.symbol, ofChars [char])

/-- A scrap is written as what it is. -/
def Proper : Scrap → Prop
  | .blank char => isLineBlank char = true
  | .word text => isWord (chars text) = true
  | .numeral text => isNumeral (chars text) = true
  | .quoted _ => True
  | .symbol char => isSymbolChar char = true

/-- The sort of lexeme that a scrap is. -/
def sort : Scrap → LexemeSort
  | .blank _ => .blank
  | .word _ => .identifier
  | .numeral _ => .number
  | .quoted _ => .string
  | .symbol _ => .symbol

/-- Whether a scrap goes on where an identifier could. -/
def isInk : Scrap → Bool
  | .word _ | .numeral _ => true
  | _ => false

/-- Whether a scrap goes on where a blank could. -/
def isGap : Scrap → Bool
  | .blank _ => true
  | _ => false

/-- Whether two scraps do not run together. -/
def clear (first second : Scrap) : Bool :=
  !(first.isInk && second.isInk) && !(first.isGap && second.isGap)

/-- A scrap stops where something follows. -/
def Stops (scrap : Scrap) (follow : List Char) : Prop :=
  (scrap.isInk = true → Ends follow) ∧
    (scrap.isGap = true → ∀ char ∈ follow.head?, isLineBlank char = false)

variable {scrap : Scrap}

theorem ofChars_chars (proper : scrap.Proper) : ofChars (chars scrap.text) = scrap.text := by
  cases scrap with
  | blank char => exact congrArg _ (Text.chars_ofChars [char])
  | symbol char => exact congrArg _ (Text.chars_ofChars [char])
  | word text => exact ofChars_chars_of_identifier (isIdentifierChar_of_isWord proper)
  | numeral text => exact ofChars_chars_of_identifier (isIdentifierChar_of_isNumeral proper)
  | quoted text =>
    rw [Scrap.text, Text.Quoted.encode_eq, Text.chars_ofChars]

theorem chars_text_append (proper : scrap.Proper) (rest : Text) :
    chars (scrap.text ++ rest) = chars scrap.text ++ chars rest :=
  Text.chars_append_of_written (ofChars_chars proper) rest

theorem isIdentifierChar_of_isLineBlank {char : Char} (blank : isLineBlank char = true) :
    isIdentifierChar char = false := by
  by_contra member
  rw [Bool.not_eq_false] at member
  obtain ⟨-, notBlank, -⟩ := not_special_of_isIdentifierChar member
  simp [isLineBlank, notBlank] at blank

theorem isLineBlank_of_isIdentifierChar {char : Char} (member : isIdentifierChar char = true) :
    isLineBlank char = false := by
  obtain ⟨-, notBlank, -⟩ := not_special_of_isIdentifierChar member
  simp [isLineBlank, notBlank]

/-- The first character of a scrap tells what it runs together with. -/
theorem exists_chars_text (proper : scrap.Proper) :
    ∃ char rest, chars scrap.text = char :: rest ∧ isIdentifierChar char = scrap.isInk ∧
      isLineBlank char = scrap.isGap := by
  cases scrap with
  | blank char =>
    exact ⟨char, [], Text.chars_ofChars _, isIdentifierChar_of_isLineBlank proper, proper⟩
  | symbol char =>
    simp only [Proper, isSymbolChar, Bool.or_eq_true, decide_eq_true_eq] at proper
    have special : char ∈ ['\n', '#', ';', '"', '(', ')', ',', ':', '@'] := by
      rcases proper with (((rfl | rfl) | rfl) | rfl) | rfl <;> simp
    obtain ⟨noWord, noBlank⟩ := isIdentifierChar_special char special
    exact ⟨char, [], Text.chars_ofChars _, noWord, noBlank⟩
  | quoted text =>
    obtain ⟨noWord, noBlank⟩ := isIdentifierChar_special '"' (by simp)
    refine ⟨'"', Text.Quoted.inner text ++ ['"'], ?_, noWord, noBlank⟩
    rw [Scrap.text, Text.Quoted.encode_eq, Text.chars_ofChars, List.cons_append]
  | word text =>
    have all := isIdentifierChar_of_isWord proper
    have filled : chars text ≠ [] := by
      intro none
      rw [Proper, none] at proper
      cases proper
    obtain ⟨char, rest, split⟩ := List.exists_cons_of_ne_nil filled
    have member := all char (split ▸ List.mem_cons_self)
    exact ⟨char, rest, split, member, isLineBlank_of_isIdentifierChar member⟩
  | numeral text =>
    have all := isIdentifierChar_of_isNumeral proper
    have filled : chars text ≠ [] := by
      intro none
      rw [Proper, none] at proper
      cases proper
    obtain ⟨char, rest, split⟩ := List.exists_cons_of_ne_nil filled
    have member := all char (split ▸ List.mem_cons_self)
    exact ⟨char, rest, split, member, isLineBlank_of_isIdentifierChar member⟩

/-- Of two scraps that are `Scrap.clear` of each other the first `Stops` where the second follows.
-/
theorem stops_of_clear {next : Scrap} (proper : next.Proper) (apart : scrap.clear next = true)
    (behind : List Char) : scrap.Stops (chars next.text ++ behind) := by
  obtain ⟨char, rest, split, ink, gap⟩ := exists_chars_text proper
  simp only [clear, Bool.and_eq_true, Bool.not_eq_true', Bool.and_eq_false_imp] at apart
  rw [split, List.cons_append]
  refine ⟨fun isInk => ?_, fun isGap => ?_⟩
  · rintro _ ⟨⟩
    exact ink.trans (apart.1 isInk)
  · rintro _ ⟨⟩
    exact gap.trans (apart.2 isGap)

theorem stops_at_newline (scrap : Scrap) (behind : List Char) : scrap.Stops ('\n' :: behind) := by
  obtain ⟨noWord, noBlank⟩ := isIdentifierChar_special '\n' (by simp)
  refine ⟨fun _ => ?_, fun _ => ?_⟩
  · rintro _ ⟨⟩
    exact noWord
  · rintro _ ⟨⟩
    exact noBlank

/-! ### Cutting scraps -/

theorem lexemeAt_text (proper : scrap.Proper) {char : Char} {rest follow : List Char}
    (split : chars scrap.text = char :: rest) (stops : scrap.Stops follow) :
    lexemeAt char (rest ++ follow) = (scrap.sort, rest.length) := by
  cases scrap with
  | word text =>
    rw [Proper, show chars text = char :: rest from split] at proper
    exact lexemeAt_word proper (stops.1 rfl)
  | numeral text =>
    rw [Proper, show chars text = char :: rest from split] at proper
    exact lexemeAt_numeral proper (stops.1 rfl)
  | blank only =>
    obtain ⟨rfl, rfl⟩ := List.cons_eq_cons.mp ((Text.chars_ofChars [only]).symm.trans split)
    simp only [Proper, isLineBlank, Bool.and_eq_true, decide_eq_true_eq] at proper
    have run := runLength_append (List.forall_mem_nil _) (stops.2 rfl)
    unfold lexemeAt
    rw [if_neg proper.1, if_pos proper.2, run]
    rfl
  | symbol only =>
    obtain ⟨rfl, rfl⟩ := List.cons_eq_cons.mp ((Text.chars_ofChars [only]).symm.trans split)
    simp only [Proper, isSymbolChar, Bool.or_eq_true, decide_eq_true_eq] at proper
    rcases proper with (((rfl | rfl) | rfl) | rfl) | rfl <;> rfl
  | quoted text =>
    rw [Scrap.text, Text.Quoted.encode_eq, Text.chars_ofChars, List.cons_append] at split
    obtain ⟨rfl, rfl⟩ := List.cons_eq_cons.mp split
    have noBlank : isBlank '"' = false := by
      simpa [isLineBlank] using (isIdentifierChar_special '"' (by simp)).2
    unfold lexemeAt
    rw [if_neg (by decide), noBlank, if_neg Bool.false_ne_true, if_neg (by decide), if_pos rfl,
      List.append_assoc, List.singleton_append, Text.Quoted.closingLength_inner]
    simp [sort]

theorem token?_text (proper : scrap.Proper) (position : Position) :
    (Lexeme.token? ⟨scrap.sort, chars scrap.text, position⟩).map Token.word = scrap.word? := by
  have raw := ofChars_chars proper
  cases scrap with
  | blank char => rfl
  | symbol char =>
    unfold Lexeme.token?
    dsimp only [sort]
    rw [raw]
    rfl
  | word text =>
    unfold Lexeme.token?
    dsimp only [sort]
    rw [raw]
    rfl
  | numeral text =>
    unfold Lexeme.token?
    dsimp only [sort, Scrap.text]
    split
    · case h_1 digits plus =>
      rw [Proper, plus] at proper
      simp only [isNumeral, Bool.and_eq_true, Bool.or_eq_true] at proper
      rcases proper.1 with digit | ⟨minus, -⟩
      · rw [(isIdentifierChar_numeral '+' (by simp)).2] at digit
        cases digit
      · exact absurd minus (by decide)
    · rw [show ofChars (chars text) = text from raw]
      rfl
  | quoted text =>
    have inside : unquoted (chars (Text.Quoted.encode text)) = Text.Quoted.inner text := by
      rw [Text.Quoted.encode_eq, Text.chars_ofChars, unquoted, List.cons_append, List.tail_cons,
        List.dropLast_concat]
    unfold Lexeme.token?
    dsimp only [sort, Scrap.text]
    rw [inside, Text.Quoted.decode_inner]
    rfl

end Scrap

/-- The tokens of a source without their places, up to its end. -/
def wordsFrom (position : Position) (source : List Char) : List Word :=
  ((lexemes position source).1.filterMap Lexeme.token?).map Token.word

theorem wordsFrom_append {char : Char} {rest follow : List Char} {sort : LexemeSort}
    (starts : lexemeAt char (rest ++ follow) = (sort, rest.length)) (position : Position) :
    wordsFrom position (char :: rest ++ follow) =
      ((Lexeme.token? ⟨sort, char :: rest, position⟩).map Token.word).toList ++
        wordsFrom (position.advance (char :: rest)) follow := by
  unfold wordsFrom
  rw [List.cons_append, lexemes, starts]
  dsimp only
  rw [List.take_left, List.drop_left, List.filterMap_cons]
  cases Lexeme.token? ⟨sort, char :: rest, position⟩ <;> rfl

theorem wordsFrom_text {scrap : Scrap} (proper : scrap.Proper) {follow : List Char}
    (stops : scrap.Stops follow) (position : Position) :
    wordsFrom position (chars scrap.text ++ follow) =
      scrap.word?.toList ++ wordsFrom (position.advance (chars scrap.text)) follow := by
  obtain ⟨char, rest, split, -⟩ := Scrap.exists_chars_text proper
  rw [← Scrap.token?_text proper position, split]
  exact wordsFrom_append (Scrap.lexemeAt_text proper split stops) position

/-! ### Rows of scraps -/

/-- The text of scraps one after another. -/
def scrapsText (scraps : List Scrap) : Text := scraps.flatMap Scrap.text

theorem scrapsText_cons (scrap : Scrap) (rest : List Scrap) :
    scrapsText (scrap :: rest) = scrap.text ++ scrapsText rest := List.flatMap_cons

theorem scrapsText_append (first second : List Scrap) :
    scrapsText (first ++ second) = scrapsText first ++ scrapsText second := List.flatMap_append

/-- What stands on one line. -/
abbrev Row := List Scrap

namespace Row

/-- The tokens of a row. -/
def words (row : Row) : List Word := row.filterMap Scrap.word?

/-- How a row is written, with the end of its line. -/
def text (row : Row) : Text := row.flatMap Scrap.text ++ ofChars ['\n']

theorem text_row (row : Row) : row.text = scrapsText row ++ Text.ofString "\n" := rfl

/-- A row of `Scrap.Proper` scraps, of which no two neighbours run together. -/
structure Neat (row : Row) : Prop where
  proper : ∀ scrap ∈ row, scrap.Proper
  clear : row.IsChain fun first second => first.clear second = true

variable {row : Row}

theorem neat_of_cons {scrap : Scrap} (neat : Neat (scrap :: row)) : Neat row :=
  ⟨fun other member => neat.proper other (List.mem_cons_of_mem _ member), neat.clear.tail⟩

theorem words_cons (scrap : Scrap) (row : Row) :
    words (scrap :: row) = scrap.word?.toList ++ words row := by
  unfold words
  cases named : scrap.word? <;> simp [named]

end Row

/-- Scraps that are `Neat` are cut from what follows, by `wordsFrom`, if the last one `Stops` there.
-/
theorem exists_wordsFrom_scraps {scraps : List Scrap} (neat : Row.Neat scraps) {rest : Text}
    (stops : ∀ last ∈ scraps.getLast?, last.Stops (chars rest)) (position : Position) :
    ∃ behind, wordsFrom position (chars (scrapsText scraps ++ rest)) =
      Row.words scraps ++ wordsFrom behind (chars rest) := by
  induction scraps generalizing position with
  | nil => exact ⟨position, rfl⟩
  | cons scrap others ih =>
    have proper := neat.proper scrap List.mem_cons_self
    have stopsHere : scrap.Stops (chars (scrapsText others ++ rest)) := by
      cases others with
      | nil => exact stops scrap rfl
      | cons next behind =>
        have nextProper := neat.proper next (List.mem_cons_of_mem _ List.mem_cons_self)
        rw [scrapsText_cons, List.append_assoc, Scrap.chars_text_append nextProper]
        exact Scrap.stops_of_clear nextProper (List.isChain_cons_cons.mp neat.clear).1 _
    have stopsLater : ∀ last ∈ others.getLast?, last.Stops (chars rest) := by
      intro last isLast
      cases others with
      | nil => cases isLast
      | cons next behind => exact stops last (by rwa [List.getLast?_cons_cons])
    obtain ⟨behind, found⟩ :=
      ih (Row.neat_of_cons neat) stopsLater (position.advance (chars scrap.text))
    refine ⟨behind, ?_⟩
    rw [scrapsText_cons, List.append_assoc, Scrap.chars_text_append proper,
      wordsFrom_text proper stopsHere, found, ← List.append_assoc, Row.words_cons]

theorem wordsFrom_newline (position : Position) (rest : List Char) :
    wordsFrom position ('\n' :: rest) =
      (.endOfLine, []) :: wordsFrom (position.advance ['\n']) rest :=
  wordsFrom_append (show lexemeAt '\n' ([] ++ rest) = _ from rfl) position

/-- A row that is `Neat` is cut into its scraps by `wordsFrom`. -/
theorem Row.exists_wordsFrom {row : Row} (neat : Neat row) (rest : Text) (position : Position) :
    ∃ behind, wordsFrom position (chars (row.text ++ rest)) =
      row.words ++ (.endOfLine, []) :: wordsFrom behind (chars rest) := by
  have newline : chars (ofChars ['\n'] ++ rest) = '\n' :: chars rest :=
    Text.chars_ofChars_append ['\n'] rest
  have stops : ∀ last ∈ row.getLast?, last.Stops (chars (ofChars ['\n'] ++ rest)) := by
    intro last _
    rw [newline]
    exact last.stops_at_newline _
  obtain ⟨behind, found⟩ := exists_wordsFrom_scraps neat stops position
  refine ⟨behind.advance ['\n'], ?_⟩
  rw [text_row, List.append_assoc, show Text.ofString "\n" = ofChars ['\n'] from rfl, found,
    newline, wordsFrom_newline]

/-- The words of the `tokens` of a text made of rows are those of the rows, line by line. -/
theorem words_tokens {rows : List Row} (neat : ∀ row ∈ rows, Row.Neat row) :
    (tokens (rows.flatMap Row.text)).map Token.word =
      rows.flatMap (fun row => Row.words row ++ [(.endOfLine, [])]) ++ [(.endOfInput, [])] := by
  have cut : ∀ position, wordsFrom position (chars (rows.flatMap Row.text)) =
      rows.flatMap fun row => Row.words row ++ [(.endOfLine, [])] := by
    induction rows with
    | nil =>
      intro position
      unfold wordsFrom
      rw [List.flatMap_nil, show chars [] = [] from rfl, lexemes]
      rfl
    | cons row others ih =>
      intro position
      obtain ⟨behind, found⟩ :=
        Row.exists_wordsFrom (neat row List.mem_cons_self) (others.flatMap Row.text) position
      rw [List.flatMap_cons, found,
        ih (fun other member => neat other (List.mem_cons_of_mem _ member)) behind,
        List.flatMap_cons, List.append_assoc]
      rfl
  unfold tokens
  dsimp only
  rw [List.map_append]
  exact congrArg (· ++ _) (cut {})

end Assembly

end ScriptEngine
