/-
This file cuts a source in two at the end of a line. A line break ends whatever lexeme it comes in,
so the lexer cuts what is in front of it as if nothing followed, and what is behind it as a source
of its own that only starts at another place. The lines of the whole are those of the two parts,
and a part without a line break is a single line.
-/

import Mathlib
import ScriptEngine.Proofs.Assembly.Labels

namespace ScriptEngine

namespace Text

/-! ### Characters around a line break -/

theorem leading?_eq_some_iff {text : Text} {char : Char} :
    leading? text = some char ↔ String.utf8EncodeChar char <+: text := by
  constructor
  · intro found
    obtain ⟨-, starts⟩ := Option.filter_eq_some_iff.mp found
    exact List.isPrefixOf_iff_prefix.mp starts
  · rintro ⟨rest, rfl⟩
    exact leading?_encode char rest

/-- A byte that is a character by itself is in no longer encoding. -/
theorem utf8EncodeChar_of_mem_ascii {char : Char} {byte : UInt8} (ascii : byte < 128)
    (member : byte ∈ String.utf8EncodeChar char) : String.utf8EncodeChar char = [byte] := by
  rcases Nat.lt_or_ge char.toNat 128 with small | large
  · rw [utf8EncodeChar_of_ascii small] at member ⊢
    rw [List.mem_singleton.mp member]
  · have below : byte.toNat < 128 := UInt8.lt_iff_toNat_lt.mp ascii
    have beyond : ¬ char.val.toNat ≤ 127 := Nat.not_le_of_gt large
    unfold String.utf8EncodeChar at member
    dsimp only at member
    rw [if_neg beyond] at member
    split at member
    all_goals try split at member
    all_goals
      simp only [List.mem_cons, List.not_mem_nil, or_false] at member
      rcases member with rfl | rfl | rfl | rfl <;>
      · simp only [UInt8.toNat_ofNat'] at below
        omega

/-- No character goes over the end of a line. -/
theorem leading?_append_newline (byte : UInt8) (front behind : Text) :
    leading? (byte :: front ++ 10 :: behind) = leading? (byte :: front) := by
  refine Option.ext fun char => ?_
  rw [leading?_eq_some_iff, leading?_eq_some_iff]
  constructor
  · intro starts
    rcases Nat.lt_or_ge (byte :: front).length (String.utf8EncodeChar char).length with long | short
    · have further : byte :: front ++ [10] <+: byte :: front ++ 10 :: behind :=
        (List.prefix_append_right_inj _).mpr (List.prefix_append [10] behind)
      have within : byte :: front ++ [10] <+: String.utf8EncodeChar char := by
        refine List.prefix_of_prefix_length_le further starts ?_
        rw [List.length_append]
        exact long
      have single : String.utf8EncodeChar char = [10] :=
        utf8EncodeChar_of_mem_ascii (by decide) (within.subset (by simp))
      rw [single] at long
      simp at long
    · exact List.prefix_of_prefix_length_le starts (List.prefix_append _ _) short
  · exact fun starts => starts.trans (List.prefix_append _ _)

theorem piecesAfter_append_newline {skip : ℕ} (front behind : Text)
    (inside : skip ≤ front.length) :
    piecesAfter skip (front ++ 10 :: behind) =
      piecesAfter skip front ++ .char '\n' :: pieces behind := by
  induction front generalizing skip with
  | nil =>
    obtain rfl : skip = 0 := Nat.le_zero.mp inside
    exact pieces_encode_append '\n' behind
  | cons byte rest ih =>
    cases skip with
    | succ skip => exact ih (Nat.le_of_succ_le_succ inside)
    | zero =>
      have same := leading?_append_newline byte rest behind
      rw [List.cons_append] at same ⊢
      rw [piecesAfter, piecesAfter, same]
      cases found : leading? (byte :: rest) with
      | none => exact congrArg _ (ih (Nat.zero_le _))
      | some char =>
        have length := (leading?_eq_some_iff.mp found).length_le
        rw [List.length_cons] at length
        exact congrArg _ (ih (by omega))

theorem chars_append_newline (front behind : Text) :
    chars (front ++ 10 :: behind) = chars front ++ '\n' :: chars behind := by
  unfold chars
  rw [pieces, piecesAfter_append_newline front behind (Nat.zero_le _), List.map_append]
  rfl

/-- A text has a line break where its characters have one. -/
theorem newline_mem_chars_iff {text : Text} : '\n' ∈ chars text ↔ 10 ∈ text := by
  constructor
  · intro member
    obtain ⟨piece, among, shown⟩ := List.mem_map.mp member
    have bytes : piece.bytes = [10] := by
      cases piece with
      | char value =>
        obtain rfl : value = '\n' := shown
        rfl
      | stray byte => exact absurd shown (show '\uFFFD' ≠ '\n' by decide)
    rw [← ofPieces_pieces text]
    exact List.mem_flatMap.mpr ⟨piece, among, bytes ▸ List.mem_singleton_self _⟩
  · intro member
    obtain ⟨front, behind, rfl⟩ := List.append_of_mem member
    rw [chars_append_newline]
    exact List.mem_append_right _ List.mem_cons_self

end Text

namespace Assembly

open Text (chars isDecimalDigit)

/-! ### Lexemes in front of a line break -/

theorem runLength_append_newline {belongs : Char → Bool} (other : belongs '\n' = false)
    (rest behind : List Char) :
    runLength belongs (rest ++ '\n' :: behind) = runLength belongs rest := by
  unfold runLength
  rw [List.takeWhile_append, List.takeWhile_cons, other, if_neg Bool.false_ne_true, List.append_nil]
  split
  · case isTrue whole => rw [whole]
  · rfl

theorem numberLength_append_newline (behindExponent : Bool) (rest behind : List Char) :
    numberLength behindExponent (rest ++ '\n' :: behind) = numberLength behindExponent rest := by
  induction rest generalizing behindExponent with
  | nil =>
    have other : ¬ ('\n' = 'e' ∨ '\n' = 'E') := by decide
    show numberLength behindExponent ('\n' :: behind) = 0
    rw [numberLength, if_neg other, if_neg (by cases behindExponent <;> decide)]
  | cons char rest ih => rw [List.cons_append, numberLength, numberLength, ih, ih]

theorem closingLength_append_newline (escaped : Bool) (rest behind : List Char) :
    closingLength escaped (rest ++ '\n' :: behind) = closingLength escaped rest := by
  induction rest generalizing escaped with
  | nil => rfl
  | cons char rest ih => rw [List.cons_append, closingLength, closingLength, ih, ih]

theorem startsUnsigned_append_newline (rest behind : List Char) :
    startsUnsigned (rest ++ '\n' :: behind) = startsUnsigned rest := by
  cases rest with
  | nil =>
    have other : (isDecimalDigit '\n' || decide ('\n' = '.')) = false := by decide
    exact other
  | cons char rest => rfl

theorem lexemeAt_append_newline (char : Char) (rest behind : List Char) :
    lexemeAt char (rest ++ '\n' :: behind) = lexemeAt char rest := by
  unfold lexemeAt
  rw [runLength_append_newline (by decide), runLength_append_newline (by decide),
    runLength_append_newline (by decide), closingLength_append_newline,
    numberLength_append_newline, startsUnsigned_append_newline]

theorem numberLength_le (behindExponent : Bool) (rest : List Char) :
    numberLength behindExponent rest ≤ rest.length := by
  fun_induction numberLength behindExponent rest with
  | case1 => exact Nat.le_refl _
  | case2 _ _ _ _ ih => exact Nat.succ_le_succ ih
  | case3 _ _ _ _ _ ih => exact Nat.succ_le_succ ih
  | case4 => exact Nat.zero_le _

theorem closingLength_le {escaped : Bool} {rest : List Char} {length : ℕ}
    (closes : closingLength escaped rest = some length) : length ≤ rest.length := by
  fun_induction closingLength escaped rest generalizing length with
  | case1 | case2 => cases closes
  | case3 _ _ _ ih | case4 _ _ _ _ ih | case6 _ _ _ _ _ _ _ ih =>
    obtain ⟨before, isBefore, rfl⟩ := Option.map_eq_some_iff.mp closes
    exact Nat.succ_le_succ (ih isBefore)
  | case5 =>
    cases closes
    exact Nat.succ_le_succ (Nat.zero_le _)

theorem lexemeAt_le (char : Char) (rest : List Char) : (lexemeAt char rest).2 ≤ rest.length := by
  have run (belongs : Char → Bool) : runLength belongs rest ≤ rest.length :=
    (List.takeWhile_sublist _).length_le
  have number := numberLength_le false rest
  unfold lexemeAt
  split
  · exact Nat.zero_le _
  split
  · exact run _
  split
  · exact run _
  split
  · split
    · case h_1 closes => exact closingLength_le closes
    · exact run _
  split
  · exact number
  split
  · split
    · exact number
    · exact run _
  split
  · exact Nat.zero_le _
  split
  · exact run _
  · exact Nat.zero_le _

/-- Only a line break is the end of a line. -/
theorem eq_newline_of_lexemeAt {char : Char} {rest : List Char}
    (ends : (lexemeAt char rest).1 = .endOfLine) : char = '\n' := by
  unfold lexemeAt at ends
  split at ends
  · assumption
  · grind

theorem lexemes_append_newline (position : Position) (front behind : List Char) :
    lexemes position (front ++ '\n' :: behind) =
      ((lexemes position front).1 ++ ⟨.endOfLine, ['\n'], (lexemes position front).2⟩ ::
          (lexemes ((lexemes position front).2.step '\n') behind).1,
        (lexemes ((lexemes position front).2.step '\n') behind).2) := by
  fun_induction lexemes position front with
  | case1 position =>
    rw [List.nil_append, lexemes]
    rfl
  | case2 position char rest sort length starts chars others last more ih =>
    have inside : length ≤ rest.length := by
      have bound := lexemeAt_le char rest
      rwa [starts] at bound
    rw [List.cons_append, lexemes, lexemeAt_append_newline, starts]
    dsimp only
    rw [List.take_append_of_le_length inside, List.drop_append_of_le_length inside, ih, more]
    rfl

theorem newline_of_mem_lexemes {position : Position} {source : List Char} {lexeme : Lexeme}
    (member : lexeme ∈ (lexemes position source).1) (ends : lexeme.sort = .endOfLine) :
    '\n' ∈ source := by
  fun_induction lexemes position source with
  | case1 => cases member
  | case2 position char rest sort length starts chars others last more ih =>
    rcases List.mem_cons.mp member with rfl | later
    · have isEnd : (lexemeAt char rest).1 = .endOfLine := by
        rw [starts]
        exact ends
      rw [eq_newline_of_lexemeAt isEnd]
      exact List.mem_cons_self
    · rw [more] at ih
      exact List.mem_cons_of_mem _ (List.mem_of_mem_drop (ih later))

/-! ### Lines from a place on -/

/-- The tokens of what starts at a place. -/
def tokensFrom (position : Position) (source : List Char) : List Token :=
  (lexemes position source).1.filterMap Lexeme.token? ++
    [⟨.endOfInput, [], (lexemes position source).2⟩]

/-- The lines of what starts at a place. -/
def linesFrom (position : Position) (source : List Char) : List (List Token) :=
  tokenLinesFrom [] (tokensFrom position source)

theorem linesOf_eq (source : Text) : linesOf source = linesFrom {} (chars source) := rfl

theorem tokenLinesFrom_append_end {last : Token} (isEnd : last.kind.IsEnd)
    (line body behind : List Token) :
    tokenLinesFrom line (body ++ last :: behind) =
      tokenLinesFrom line (body ++ [last]) ++ tokenLinesFrom [] behind := by
  induction body generalizing line with
  | nil =>
    rw [List.nil_append, List.nil_append, tokenLinesFrom_end isEnd, tokenLinesFrom_end isEnd]
    rfl
  | cons token rest ih =>
    rw [List.cons_append, List.cons_append, tokenLinesFrom, tokenLinesFrom]
    split
    · rw [ih, List.cons_append]
    · exact ih _

/-- The lines that a line break ends, of which the last one has it as its last token. -/
def endedLines (position : Position) (front : List Char) : List (List Token) :=
  tokenLinesFrom [] ((lexemes position front).1.filterMap Lexeme.token? ++
    [⟨.endOfLine, [], (lexemes position front).2⟩])

/-- The lines up to a line break are the `endedLines`, whatever follows. -/
theorem linesFrom_append_newline (position : Position) (front behind : List Char) :
    linesFrom position (front ++ '\n' :: behind) = endedLines position front ++
      linesFrom ((lexemes position front).2.step '\n') behind := by
  unfold linesFrom tokensFrom
  rw [lexemes_append_newline, List.filterMap_append, List.append_assoc]
  exact tokenLinesFrom_append_end (.inl rfl) _ _ _

/-- The kind of a token that ends a line is that of a lexeme that does. -/
theorem endOfLine_of_isEnd {lexeme : Lexeme} {token : Token}
    (isToken : lexeme.token? = some token) (isEnd : token.kind.IsEnd) :
    lexeme.sort = .endOfLine := by
  unfold Lexeme.token? at isToken
  dsimp only at isToken
  unfold TokenKind.IsEnd at isEnd
  split at isToken
  case h_3 sort => exact sort
  all_goals grind

/-- A text that is empty or ends with a line break. -/
def Ended (text : Text) : Prop := text = [] ∨ ∃ front, text = front ++ [10]

theorem Ended.append {first second : Text} (ended : Ended first) (others : Ended second) :
    Ended (first ++ second) := by
  rcases others with rfl | ⟨front, rfl⟩
  · rwa [List.append_nil]
  · exact .inr ⟨first ++ front, (List.append_assoc _ _ _).symm⟩

/-- What has no line break in front of one is a single line. -/
theorem exists_endedLines {front : List Char} (inLine : '\n' ∉ front) (position : Position) :
    ∃ line, endedLines position front = [line] := by
  have inside : ∀ token ∈ (lexemes position front).1.filterMap Lexeme.token?,
      ¬ token.kind.IsEnd := by
    intro token member isEnd
    obtain ⟨lexeme, among, isToken⟩ := List.mem_filterMap.mp member
    exact inLine (newline_of_mem_lexemes among (endOfLine_of_isEnd isToken isEnd))
  unfold endedLines
  rw [tokenLinesFrom_append inside, tokenLinesFrom_end (.inl rfl)]
  exact ⟨_, rfl⟩

/-- The lines of a text that has `Ended` stand in front of those of what follows. -/
theorem exists_lines_of_ended {front : Text} (ended : Ended front) (position : Position) :
    ∃ lines middle, ∀ behind,
      linesFrom position (chars (front ++ behind)) = lines ++ linesFrom middle (chars behind) := by
  rcases ended with rfl | ⟨front, rfl⟩
  · exact ⟨[], position, fun behind => rfl⟩
  · refine ⟨endedLines position (chars front), (lexemes position (chars front)).2.step '\n',
      fun behind => ?_⟩
    rw [List.append_assoc, List.singleton_append, Text.chars_append_newline]
    exact linesFrom_append_newline position (chars front) (chars behind)

/-- A text without a line break is a line once one follows. -/
theorem exists_line_of_inLine {front : Text} (inLine : 10 ∉ front) (position : Position) :
    ∃ line middle, ∀ behind, linesFrom position (chars (front ++ 10 :: behind)) =
      line :: linesFrom middle (chars behind) := by
  obtain ⟨line, isLine⟩ :=
    exists_endedLines (mt Text.newline_mem_chars_iff.mp inLine) position
  refine ⟨line, (lexemes position (chars front)).2.step '\n', fun behind => ?_⟩
  rw [Text.chars_append_newline, linesFrom_append_newline, isLine]
  rfl

/-! ### The first words of a line -/

theorem exists_line_of_tokens {last : Token} (isEnd : last.kind.IsEnd) (line body : List Token) :
    ∃ more others, tokenLinesFrom line (body ++ [last]) = (line ++ more) :: others := by
  induction body generalizing line with
  | nil => exact ⟨[last], [], tokenLinesFrom_end isEnd line []⟩
  | cons token rest ih =>
    rw [List.cons_append, tokenLinesFrom]
    split
    · exact ⟨[token], _, rfl⟩
    · obtain ⟨more, others, isLine⟩ := ih (line ++ [token])
      exact ⟨token :: more, others, by rw [isLine, List.append_assoc]; rfl⟩

/-- The words up to the first one that ends a line, by `IsEnd`, are words of the first line, and so
is the one behind them, or the end of the input if there is none. -/
theorem exists_line_of_words {position : Position} {source : List Char} {words behind : List Word}
    (isWords : wordsFrom position source = words ++ behind)
    (inside : ∀ word ∈ words, ¬ word.1.IsEnd) :
    ∃ line others more, linesFrom position source = line :: others ∧
      line.map Token.word = words ++ behind.headD (.endOfInput, []) :: more := by
  have whole : (tokensFrom position source).map Token.word =
      words ++ (behind ++ [(.endOfInput, [])]) := by
    unfold tokensFrom
    rw [List.map_append, ← List.append_assoc, ← isWords]
    rfl
  obtain ⟨front, rest, isTokens, isFront, isRest⟩ := List.map_eq_append_iff.mp whole
  have notEnd : ∀ token ∈ front, ¬ token.kind.IsEnd := fun token member =>
    inside token.word (isFront ▸ List.mem_map_of_mem member)
  unfold linesFrom
  rw [isTokens, tokenLinesFrom_append notEnd, List.nil_append]
  cases behind with
  | nil =>
    obtain ⟨last, rfl, isLast⟩ := List.map_eq_singleton_iff.mp isRest
    have isEnd : last.kind.IsEnd := .inr (congrArg Prod.fst isLast)
    refine ⟨front ++ [last], [], [], tokenLinesFrom_end isEnd front [], ?_⟩
    rw [List.map_append, isFront, List.map_singleton, isLast, List.headD_nil]
  | cons word words =>
    obtain ⟨token, rest, rfl, isToken, isRest⟩ := List.map_eq_cons_iff.mp isRest
    obtain ⟨body, ends, rfl, -, isEnds⟩ := List.map_eq_append_iff.mp isRest
    obtain ⟨last, rfl, isLast⟩ := List.map_eq_singleton_iff.mp isEnds
    rw [tokenLinesFrom, List.headD_cons, ← isToken, ← isFront]
    split
    · exact ⟨_, _, [], rfl, by rw [List.map_append, List.map_singleton]⟩
    · obtain ⟨more, others, isLine⟩ :=
        exists_line_of_tokens (.inr (congrArg Prod.fst isLast)) (front ++ [token]) body
      refine ⟨_, others, more.map Token.word, isLine, ?_⟩
      rw [List.append_assoc, List.map_append, List.map_append, List.map_singleton]
      rfl

end Assembly

end ScriptEngine
