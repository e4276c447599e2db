/-
This file proves that the tokens of a source are a partition of it. Every token but the last one
covers a range of characters within a line, or the end of a line; in front of it there may be a gap
of blanks and a comment, and nothing else is left out. The place of a token is counted from what
stands in front of it: ends of lines, and characters since the last of them.
-/

import Mathlib
import ScriptEngine.Proofs.Assembly.Reading

namespace ScriptEngine.Assembly

open Text (isBlank isDecimalDigit ofChars)

/-! ### Places -/

/-- The place behind some characters. -/
def placeBehind (front : List Char) : Position where
  line := 1 + front.count '\n'
  column := 1 + (front.reverse.takeWhile (· ≠ '\n')).length

theorem step_placeBehind (front : List Char) (char : Char) :
    (placeBehind front).step char = placeBehind (front ++ [char]) := by
  unfold Position.step placeBehind
  rw [List.count_append, List.count_singleton, List.reverse_append, List.reverse_singleton,
    List.singleton_append, List.takeWhile_cons]
  by_cases newline : char = '\n'
  · simp [newline, Nat.add_assoc]
  · simp [newline, Nat.add_comm]

/-- The `placeBehind` some characters is found character by character, with `advance`. -/
theorem advance_placeBehind (front chars : List Char) :
    (placeBehind front).advance chars = placeBehind (front ++ chars) := by
  induction chars generalizing front with
  | nil => rw [List.append_nil]; rfl
  | cons char rest ih =>
    rw [List.append_cons, ← ih, ← step_placeBehind]
    rfl

/-! ### Gaps and ranges -/

/-- What may stand between two tokens, in front of other characters: blanks, and a comment up to the
end of its line. -/
inductive Gap : List Char → List Char → Prop
  | none (behind : List Char) : Gap [] behind
  | blank {char : Char} {gap behind : List Char} (isBlank : isLineBlank char = true)
      (others : Gap gap behind) : Gap (char :: gap) behind
  | comment {sign : Char} {text behind : List Char} (isSign : sign = '#' ∨ sign = ';')
      (inLine : '\n' ∉ text) (atEnd : ∀ char ∈ behind.head?, char = '\n') :
      Gap (sign :: text) behind

/-- Some characters of a line. -/
structure InLine (range : List Char) : Prop where
  filled : range ≠ []
  within : '\n' ∉ range

/-- A token is that of a range of characters. -/
inductive Token.Covers : Token → List Char → Prop
  | endOfLine (position : Position) : Covers ⟨.endOfLine, [], position⟩ ['\n']
  | identifier {range : List Char} (position : Position) (inLine : InLine range) :
      Covers ⟨.identifier, ofChars range, position⟩ range
  | symbol {range : List Char} (position : Position) (inLine : InLine range) :
      Covers ⟨.symbol, ofChars range, position⟩ range
  | invalid {range : List Char} (position : Position) (inLine : InLine range) :
      Covers ⟨.invalid, ofChars range, position⟩ range
  | number {range : List Char} (position : Position) (inLine : InLine range) :
      Covers ⟨.number, ofChars range, position⟩ range
  | positive {digits : List Char} (position : Position) (inLine : InLine ('+' :: digits)) :
      Covers ⟨.number, ofChars digits, position⟩ ('+' :: digits)
  | text {inside : List Char} {text : Text} (position : Position)
      (inLine : InLine ('"' :: inside ++ ['"'])) (isText : Text.Quoted.decode inside = some text) :
      Covers ⟨.text, text, position⟩ ('"' :: inside ++ ['"'])

/-- What is behind some characters is cut into tokens, each of which, behind a `Gap`, `Token.Covers`
its characters. -/
inductive Cuts : List Char → List Char → List Token → Prop
  | endOfInput {front gap : List Char} (isGap : Gap gap []) :
      Cuts front gap [⟨.endOfInput, [], placeBehind (front ++ gap)⟩]
  | token {front gap range rest : List Char} {token : Token} {others : List Token}
      (isGap : Gap gap (range ++ rest)) (covers : token.Covers range)
      (isPlace : token.position = placeBehind (front ++ gap))
      (behind : Cuts (front ++ (gap ++ range)) rest others) :
      Cuts front (gap ++ (range ++ rest)) (token :: others)

namespace Gap

variable {gap behind : List Char}

theorem blanks {run : List Char} (areBlank : ∀ char ∈ run, isLineBlank char = true)
    (isGap : Gap gap behind) : Gap (run ++ gap) behind := by
  induction run with
  | nil => exact isGap
  | cons char rest ih =>
    obtain ⟨first, others⟩ := List.forall_mem_cons.mp areBlank
    exact .blank first (ih others)

/-- There is no `Gap` in front of the end of a line. -/
theorem eq_nil (isGap : Gap gap behind) (atEnd : ∀ char ∈ gap.head?, char = '\n') : gap = [] := by
  cases isGap with
  | none => rfl
  | blank isBlank _ =>
    rw [atEnd _ rfl] at isBlank
    cases isBlank
  | comment isSign _ _ =>
    rw [atEnd _ rfl] at isSign
    rcases isSign with same | same <;> cases same

end Gap

namespace Cuts

variable {front rest : List Char} {tokens : List Token}

theorem blanks {run : List Char} (areBlank : ∀ char ∈ run, isLineBlank char = true)
    (cuts : Cuts (front ++ run) rest tokens) : Cuts front (run ++ rest) tokens := by
  cases cuts with
  | endOfInput isGap =>
    rw [List.append_assoc]
    exact .endOfInput (isGap.blanks areBlank)
  | token isGap covers isPlace behind =>
    rw [List.append_assoc] at isPlace
    rw [List.append_assoc, ← List.append_assoc run] at behind
    rw [← List.append_assoc]
    exact .token (isGap.blanks areBlank) covers isPlace behind

theorem comment {sign : Char} {text : List Char} (isSign : sign = '#' ∨ sign = ';')
    (inLine : '\n' ∉ text) (atEnd : ∀ char ∈ rest.head?, char = '\n')
    (cuts : Cuts (front ++ sign :: text) rest tokens) :
    Cuts front (sign :: text ++ rest) tokens := by
  cases cuts with
  | endOfInput isGap =>
    obtain rfl := isGap.eq_nil atEnd
    rw [List.append_nil, List.append_nil]
    exact .endOfInput (.comment isSign inLine atEnd)
  | token isGap covers isPlace behind =>
    obtain rfl := isGap.eq_nil fun char isHead =>
      atEnd char (by rw [List.head?_append, isHead]; rfl)
    rw [List.append_nil] at isPlace
    rw [List.nil_append, List.append_assoc] at behind
    rw [List.nil_append] at atEnd ⊢
    exact .token (.comment isSign inLine atEnd) covers isPlace behind

end Cuts

/-! ### Lexemes -/

theorem drop_runLength (belongs : Char → Bool) (rest : List Char) :
    rest.drop (runLength belongs rest) = rest.dropWhile belongs := by
  calc rest.drop (runLength belongs rest)
      = (rest.takeWhile belongs ++ rest.dropWhile belongs).drop
          (rest.takeWhile belongs).length := by
        rw [List.takeWhile_append_dropWhile]
        rfl
    _ = rest.dropWhile belongs := List.drop_left

/-- A run of characters of a class without the end of a line stays within the line. -/
theorem not_mem_take_runLength {belongs : Char → Bool} (other : belongs '\n' = false)
    (rest : List Char) : '\n' ∉ rest.take (runLength belongs rest) := by
  rw [take_runLength]
  intro member
  exact absurd (other.symm.trans (List.mem_takeWhile_imp member)) Bool.false_ne_true

/-- A run that goes on up to the end of a line stops there. -/
theorem head?_drop_runLength (rest : List Char) :
    ∀ char ∈ (rest.drop (runLength (· ≠ '\n') rest)).head?, char = '\n' := by
  rw [drop_runLength]
  intro char isHead
  have stops := List.head?_dropWhile_not (· ≠ '\n') rest
  rw [isHead] at stops
  simpa using stops

theorem not_mem_take_numberLength (behindExponent : Bool) (rest : List Char) :
    '\n' ∉ rest.take (numberLength behindExponent rest) := by
  fun_induction numberLength behindExponent rest with
  | case1 => exact List.not_mem_nil
  | case2 behindExponent char rest exponent ih =>
    rw [List.take_succ_cons, List.mem_cons, not_or]
    refine ⟨?_, ih⟩
    rintro rfl
    revert exponent
    decide
  | case3 behindExponent char rest _ continues ih =>
    rw [List.take_succ_cons, List.mem_cons, not_or]
    refine ⟨?_, ih⟩
    rintro rfl
    revert continues
    cases behindExponent <;> decide
  | case4 => exact List.not_mem_nil

/-- A string that is closed ends with its closing quote. -/
theorem exists_inside {escaped : Bool} {rest : List Char} {length : ℕ}
    (closes : closingLength escaped rest = some length) :
    ∃ inside, rest.take length = inside ++ ['"'] ∧ '\n' ∉ inside := by
  have longer {char : Char} {rest : List Char} {length : ℕ} (other : char ≠ '\n')
      (found : ∃ inside, rest.take length = inside ++ ['"'] ∧ '\n' ∉ inside) :
      ∃ inside, (char :: rest).take (length + 1) = inside ++ ['"'] ∧ '\n' ∉ inside := by
    obtain ⟨inside, isInside, inLine⟩ := found
    refine ⟨char :: inside, by rw [List.take_succ_cons, isInside]; rfl, ?_⟩
    rw [List.mem_cons, not_or]
    exact ⟨Ne.symm other, inLine⟩
  fun_induction closingLength escaped rest generalizing length with
  | case1 => cases closes
  | case2 => cases closes
  | case3 char rest other ih =>
    obtain ⟨before, isBefore, rfl⟩ := Option.map_eq_some_iff.mp closes
    exact longer other (ih isBefore)
  | case4 escaped rest _ other ih =>
    obtain ⟨before, isBefore, rfl⟩ := Option.map_eq_some_iff.mp closes
    exact longer other (ih isBefore)
  | case5 =>
    cases closes
    exact ⟨[], rfl, List.not_mem_nil⟩
  | case6 escaped char rest other _ _ _ ih =>
    obtain ⟨before, isBefore, rfl⟩ := Option.map_eq_some_iff.mp closes
    exact longer other (ih isBefore)

theorem inLine_cons {char : Char} {others : List Char} (other : char ≠ '\n')
    (within : '\n' ∉ others) : InLine (char :: others) := by
  refine ⟨List.cons_ne_nil _ _, ?_⟩
  rw [List.mem_cons, not_or]
  exact ⟨Ne.symm other, within⟩

/-- A range of characters has a token of a lexeme. -/
def Lexeme.Makes (sort : LexemeSort) (range : List Char) : Prop :=
  ∀ position, ∃ token, Lexeme.token? ⟨sort, range, position⟩ = some token ∧
    token.Covers range ∧ token.position = position

theorem makes_number {char : Char} {digits : List Char} (inLine : InLine (char :: digits)) :
    Lexeme.Makes .number (char :: digits) := by
  intro position
  by_cases positive : char = '+'
  · subst positive
    exact ⟨_, rfl, .positive position inLine, rfl⟩
  · refine ⟨_, ?_, .number position inLine, rfl⟩
    unfold Lexeme.token?
    grind

/-- A string is a text if its escapes are right, and invalid if they are not. -/
theorem makes_string {inside : List Char} (inLine : InLine ('"' :: inside ++ ['"'])) :
    Lexeme.Makes .string ('"' :: inside ++ ['"']) := by
  intro position
  have isInside : unquoted ('"' :: inside ++ ['"']) = inside := List.dropLast_concat
  cases decoded : Text.Quoted.decode inside with
  | some text =>
    refine ⟨_, ?_, .text position inLine decoded, rfl⟩
    unfold Lexeme.token?
    dsimp only
    rw [isInside, decoded]
  | none =>
    refine ⟨_, ?_, .invalid position inLine, rfl⟩
    unfold Lexeme.token?
    dsimp only
    rw [isInside, decoded]

/-- What starts with a character is a part of a `Gap`, or the range that `Lexeme.Makes` a token. -/
theorem cases_of_lexemeAt {char : Char} {rest : List Char} {sort : LexemeSort} {length : ℕ}
    (starts : lexemeAt char rest = (sort, length)) :
    (sort = .blank ∧ ∀ other ∈ char :: rest.take length, isLineBlank other = true) ∨
    (sort = .comment ∧ (char = '#' ∨ char = ';') ∧ '\n' ∉ rest.take length ∧
      ∀ other ∈ (rest.drop length).head?, other = '\n') ∨
    Lexeme.Makes sort (char :: rest.take length) := by
  unfold lexemeAt at starts
  split at starts
  · case isTrue newline =>
    cases starts
    subst newline
    exact .inr (.inr fun position => ⟨_, rfl, .endOfLine position, rfl⟩)
  rename_i other
  split at starts
  · case isTrue blank =>
    cases starts
    refine .inl ⟨rfl, List.forall_mem_cons.mpr ⟨by simp [isLineBlank, other, blank], ?_⟩⟩
    rw [take_runLength]
    exact fun found member => List.mem_takeWhile_imp member
  split at starts
  · case isTrue isSign =>
    cases starts
    exact .inr (.inl ⟨rfl, isSign, not_mem_take_runLength (by decide) rest,
      head?_drop_runLength rest⟩)
  refine .inr (.inr ?_)
  have word : Lexeme.Makes .identifier (char :: rest.take (runLength isIdentifierChar rest)) :=
    fun position => ⟨_, rfl, .identifier position
      (inLine_cons other (not_mem_take_runLength (by decide) rest)), rfl⟩
  have number : Lexeme.Makes .number (char :: rest.take (numberLength false rest)) :=
    makes_number (inLine_cons other (not_mem_take_numberLength false rest))
  split at starts
  · case isTrue quote =>
    subst quote
    split at starts
    · case h_1 length closes =>
      cases starts
      obtain ⟨inside, isInside, within⟩ := exists_inside closes
      rw [isInside]
      exact makes_string (inLine_cons other (by simp [within]))
    · cases starts
      exact fun position => ⟨_, rfl, .invalid position
        (inLine_cons other (not_mem_take_runLength (by decide) rest)), rfl⟩
  split at starts
  · cases starts
    exact number
  split at starts
  · split at starts <;> cases starts
    · exact number
    · exact word
  split at starts
  · cases starts
    exact fun position => ⟨_, rfl, .symbol position (inLine_cons other (by simp)), rfl⟩
  split at starts
  · cases starts
    exact word
  · cases starts
    exact fun position => ⟨_, rfl, .invalid position (inLine_cons other (by simp)), rfl⟩

/-- The `lexemes` of what is behind some characters have the tokens that `Cuts` cuts it into. -/
theorem cuts_lexemes (position : Position) (source : List Char) :
    ∀ front, position = placeBehind front →
      Cuts front source ((lexemes position source).1.filterMap Lexeme.token? ++
        [⟨.endOfInput, [], (lexemes position source).2⟩]) := by
  fun_induction lexemes position source with
  | case1 position =>
    rintro front rfl
    have last : Cuts front [] [⟨.endOfInput, [], placeBehind (front ++ [])⟩] :=
      .endOfInput (.none [])
    rwa [List.append_nil] at last
  | case2 position char rest sort length starts chars others last more ih =>
    intro front isPlace
    rw [more] at ih
    have later := ih (front ++ chars) (by rw [isPlace, advance_placeBehind])
    have whole : char :: rest = chars ++ rest.drop length := by
      rw [List.cons_append, List.take_append_drop]
    rw [whole]
    rcases cases_of_lexemeAt starts with
      ⟨rfl, areBlank⟩ | ⟨rfl, isSign, inLine, atEnd⟩ | isToken
    · exact later.blanks areBlank
    · exact later.comment isSign inLine atEnd
    · obtain ⟨token, isToken, covers, same⟩ := isToken position
      rw [List.filterMap_cons_some isToken]
      refine Cuts.token (.none _) covers ?_ later
      rw [same, isPlace, List.append_nil]

/-! ### Sources -/

/-- A token with the range of characters that it covers, and the gap in front of it. -/
structure Piece where
  gap : List Char
  range : List Char
  token : Token

/-- The characters of a piece. -/
def Piece.chars (piece : Piece) : List Char := piece.gap ++ piece.range

/-- A piece fits between the characters in front of it and those behind it: its characters are a
`Gap` and those that its token `Token.Covers`. -/
structure Piece.Fits (piece : Piece) (front behind : List Char) : Prop where
  filled : piece.range ≠ []
  covers : piece.token.Covers piece.range
  gap : Gap piece.gap (piece.range ++ behind)
  newline : '\n' ∈ piece.chars →
    piece.token.kind = .endOfLine ∧ piece.range = ['\n'] ∧ '\n' ∉ piece.gap
  place : piece.token.position = placeBehind (front ++ piece.gap)

theorem Gap.newline_not_mem {gap behind : List Char} (isGap : Gap gap behind) : '\n' ∉ gap := by
  induction isGap with
  | none => exact List.not_mem_nil
  | blank isBlank _ ih =>
    rw [List.mem_cons, not_or]
    refine ⟨?_, ih⟩
    rintro rfl
    cases isBlank
  | comment isSign inLine =>
    rw [List.mem_cons, not_or]
    refine ⟨?_, inLine⟩
    rintro rfl
    rcases isSign with same | same <;> cases same

namespace Token.Covers

variable {token : Token} {range : List Char}

theorem filled (covers : token.Covers range) : range ≠ [] := by
  cases covers with
  | endOfLine => exact List.cons_ne_nil _ _
  | identifier _ inLine | symbol _ inLine | invalid _ inLine | number _ inLine
  | positive _ inLine | text _ inLine => exact inLine.filled

/-- The end of a line is a token by itself, which `Token.Covers` one character. -/
theorem newline (covers : token.Covers range) (member : '\n' ∈ range) :
    token.kind = .endOfLine ∧ range = ['\n'] := by
  cases covers with
  | endOfLine => exact ⟨rfl, rfl⟩
  | identifier _ inLine | symbol _ inLine | invalid _ inLine | number _ inLine
  | positive _ inLine | text _ inLine => exact absurd member inLine.within

end Token.Covers

theorem Cuts.exists_pieces {front source : List Char} {tokens : List Token}
    (cuts : Cuts front source tokens) :
    ∃ pieces rest,
      tokens = pieces.map Piece.token ++ [⟨.endOfInput, [], placeBehind (front ++ source)⟩] ∧
      source = pieces.flatMap Piece.chars ++ rest ∧ Gap rest [] ∧
      ∀ before piece after, pieces = before ++ piece :: after →
        piece.Fits (front ++ before.flatMap Piece.chars) (after.flatMap Piece.chars ++ rest) := by
  induction cuts with
  | endOfInput isGap =>
    exact ⟨[], _, rfl, rfl, isGap, fun before piece after split => by simp at split⟩
  | @token front gap range behind token others isGap covers isPlace _ ih =>
    obtain ⟨pieces, rest, isTokens, rfl, isRest, fits⟩ := ih
    refine ⟨⟨gap, range, token⟩ :: pieces, rest, ?_, ?_, isRest, ?_⟩
    · rw [isTokens, List.map_cons, List.cons_append]
      simp only [List.append_assoc]
    · rw [List.flatMap_cons, Piece.chars]
      simp only [List.append_assoc]
    · intro before piece after split
      cases before with
      | nil =>
        obtain ⟨rfl, rfl⟩ := List.cons.inj split
        refine ⟨covers.filled, covers, isGap, fun member => ?_, ?_⟩
        · rcases List.mem_append.mp member with inGap | inRange
          · exact absurd inGap isGap.newline_not_mem
          · obtain ⟨kind, same⟩ := covers.newline inRange
            exact ⟨kind, same, isGap.newline_not_mem⟩
        · rw [isPlace]
          simp
      | cons first before =>
        obtain ⟨rfl, same⟩ := List.cons.inj split
        have later := fits before piece after same
        rw [List.append_assoc] at later
        exact later

/-- The tokens of a source are a partition of it into pieces, each of which `Piece.Fits` what is in
front of it and what is behind: behind the end of each of them, a `Gap` and the next one follow, and
the last one is the end of input. -/
theorem tokens_partition (source : Text) :
    ∃ pieces rest,
      tokens source =
        pieces.map Piece.token ++ [⟨.endOfInput, [], placeBehind source.chars⟩] ∧
      source.chars = pieces.flatMap Piece.chars ++ rest ∧ Gap rest [] ∧
      ∀ before piece after, pieces = before ++ piece :: after →
        piece.Fits (before.flatMap Piece.chars) (after.flatMap Piece.chars ++ rest) :=
  (cuts_lexemes {} source.chars [] rfl).exists_pieces

end ScriptEngine.Assembly
