/-
This file bounds a program by its source. A line adds one instruction at most, and none when
nothing stands in front of its end; so there are no more instructions than tokens that end no line,
and no more of those than bytes.
-/

import Mathlib
import ScriptEngine.Proofs.Assembly.Drafting

namespace ScriptEngine

namespace Text

theorem length_piecesAfter_le (skip : ℕ) (text : Text) :
    (piecesAfter skip text).length ≤ text.length := by
  fun_induction piecesAfter skip text with
  | case1 => exact Nat.le_refl _
  | case2 skip byte rest ih => exact ih.trans (Nat.le_succ _)
  | case3 byte rest char _ ih => exact Nat.succ_le_succ ih
  | case4 byte rest _ ih => exact Nat.succ_le_succ ih

theorem length_chars_le (text : Text) : (chars text).length ≤ text.length := by
  unfold chars
  rw [List.length_map]
  exact length_piecesAfter_le 0 text

end Text

namespace Assembly

/-! ### What a line adds -/

namespace Yields

theorem code_literal (draft : Draft) :
    Yields (Assembly.literal draft) fun (after, _) => after.code = draft.code := by
  refine next.bind fun token _ => ?_
  split
  · split
    · exact .pure rfl
    · exact fail
  · exact .pure rfl
  · split
    · refine (function draft).bind fun (after, index) step => .pure ?_
      rcases step with ⟨rfl, -⟩ | ⟨function, -, -, added⟩
      · rfl
      · cases added
        rfl
    · split
      · exact .pure rfl
      · exact fail
  · exact fail

theorem size_instruction (draft : Draft) (opcode : Opcode) :
    Yields (Assembly.instruction draft opcode) (·.code.size = draft.code.size + 1) := by
  unfold Assembly.instruction
  split
  · exact .pure (Array.size_push _)
  · exact nameDatum.bind fun datum _ => .pure (Array.size_push _)
  · exact countDatum.bind fun datum _ => .pure (Array.size_push _)
  · refine (code_literal draft).bind fun (after, datum) same => .pure ?_
    rw [← same]
    exact Array.size_push _
  · refine jumpTarget.bind fun target _ => ?_
    cases target <;> exact .pure (Array.size_push _)

theorem size_directive (draft : Draft) (token : Token) :
    Yields (Assembly.directive draft token) (·.code.size = draft.code.size) := by
  refine identifier.bind fun label _ => ?_
  dsimp only
  split
  · exact .pure rfl
  split
  · exact .pure rfl
  · exact fail

theorem size_statement (draft : Draft) (token : Token) :
    Yields (Assembly.statement draft token) (·.code.size ≤ draft.code.size + 1) := by
  have done : ∀ after : Draft, after.code.size ≤ draft.code.size + 1 →
      Yields (do Assembly.endOfLine; return after) (·.code.size ≤ draft.code.size + 1) :=
    fun after bounded => endOfLine.bind fun _ _ => .pure bounded
  unfold Assembly.statement
  dsimp only
  split
  · exact (size_directive draft token).bind fun after same => done after (by omega)
  split
  · exact (size_instruction draft _).bind fun after same => done after same.le
  · exact fail_bind

theorem size_line (draft : Draft) :
    Yields (Assembly.line draft) (·.code.size ≤ draft.code.size + 1) := by
  refine firstWord?.bind fun found _ => ?_
  cases found with
  | none => exact .pure (Nat.le_succ _)
  | some token =>
    refine peek.bind fun next _ => ?_
    split
    · refine skip.bind fun _ _ => ?_
      dsimp only
      split
      · exact fail_bind
      · refine firstWord?.bind fun found _ => ?_
        split
        · exact .pure (Nat.le_succ _)
        · exact size_statement _ _
    · exact size_statement draft token

end Yields

/-- A line that only ends adds nothing. -/
theorem line_end (draft : Draft) {token : Token} (isEnd : token.kind.IsEnd) :
    line draft [token] = .ok (draft, []) := by
  have reads : Reads (line draft) [token.word] [] (· = draft) := by
    refine (Reads.firstWord?_end isEnd).bind ?_
    rintro _ rfl
    exact .pure rfl
  obtain ⟨_, remaining, gives, none, rfl⟩ := reads [token] rfl
  rw [gives, List.map_eq_nil_iff.mp none]

/-! ### What all lines add -/

/-- The tokens in front of the ends of lines. -/
def inkLength (lines : List (List Token)) : ℕ := (lines.map (·.length - 1)).sum

/-- A line with the token that ends it. -/
def EndsLine (tokens : List Token) : Prop :=
  ∃ body last, tokens = body ++ [last] ∧ last.kind.IsEnd

theorem endsLine_of_mem_tokenLinesFrom {line tokens found : List Token}
    (member : found ∈ tokenLinesFrom line tokens) : EndsLine found := by
  fun_induction tokenLinesFrom line tokens with
  | case1 => cases member
  | case2 line token rest isEnd ih =>
    rcases List.mem_cons.mp member with rfl | later
    · exact ⟨line, token, rfl, isEnd⟩
    · exact ih later
  | case3 line token rest _ ih => exact ih member

theorem inkLength_tokenLinesFrom_le (line tokens : List Token) :
    inkLength (tokenLinesFrom line tokens) ≤ line.length + tokens.length - 1 := by
  fun_induction tokenLinesFrom line tokens with
  | case1 => exact Nat.zero_le _
  | case2 line token rest isEnd ih =>
    unfold inkLength at ih ⊢
    simp only [List.map_cons, List.sum_cons, List.length_append, List.length_nil,
      List.length_cons] at ih ⊢
    omega
  | case3 line token rest _ ih =>
    simp only [List.length_append, List.length_nil, List.length_cons] at ih ⊢
    omega

/-- Lines add no more instructions than there are tokens in front of their ends, which `inkLength`
counts. -/
theorem size_readLines_le {draft after : Draft} {lines : List (List Token)}
    (ends : ∀ line ∈ lines, EndsLine line) (lexed : ∀ line ∈ lines, ∀ token ∈ line, token.Lexed)
    (read : readLines draft lines = .ok after) :
    after.code.size ≤ draft.code.size + inkLength lines := by
  induction lines generalizing draft with
  | nil =>
    cases read
    exact Nat.le_refl _
  | cons tokens rest ih =>
    obtain ⟨⟨body, last, isTokens, isEnd⟩, otherEnds⟩ := List.forall_mem_cons.mp ends
    obtain ⟨first, others⟩ := List.forall_mem_cons.mp lexed
    obtain ⟨next, remaining, ran, read⟩ := readLines_cons_eq_ok_iff.mp read
    have later := ih otherEnds others read
    have step : next.code.size ≤ draft.code.size + (tokens.length - 1) := by
      cases body with
      | nil =>
        rw [isTokens, List.nil_append, line_end draft isEnd] at ran
        cases ran
        exact Nat.le_add_right _ _
      | cons token body =>
        have one := (Yields.size_line draft tokens first next remaining ran).1
        have length : tokens.length = body.length + 2 := by simp [isTokens]
        omega
    unfold inkLength at later ⊢
    rw [List.map_cons, List.sum_cons]
    omega

/-! ### What a source holds -/

theorem length_lexemes_le (position : Position) (source : List Char) :
    (lexemes position source).1.length ≤ source.length := by
  fun_induction lexemes position source with
  | case1 => exact Nat.le_refl _
  | case2 position char rest sort length starts chars others last more ih =>
    rw [more] at ih
    have dropped : (rest.drop length).length ≤ rest.length := by
      rw [List.length_drop]
      exact Nat.sub_le _ _
    exact Nat.succ_le_succ (ih.trans dropped)

theorem length_tokens_le (source : Text) : (tokens source).length ≤ source.length + 1 := by
  have cut := length_lexemes_le {} source.chars
  have found := List.length_filterMap_le Lexeme.token? (lexemes {} source.chars).1
  have bytes := source.length_chars_le
  show ((lexemes {} source.chars).1.filterMap Lexeme.token? ++ [_]).length ≤ _
  rw [List.length_append, List.length_singleton]
  omega

/-- A program that `assemble` gives has no more instructions than its source has bytes. -/
theorem size_le_of_assemble {source : Text} {program : Program}
    (assembles : assemble source = .ok program) : program.code.size ≤ source.length := by
  obtain ⟨draft, read, sound, links⟩ := exists_draft_of_assemble assembles
  have ends : ∀ line ∈ tokenLinesFrom [] (tokens source), EndsLine line :=
    fun line member => endsLine_of_mem_tokenLinesFrom member
  have added := size_readLines_le ends lexed_of_mem_lines read
  have ink := inkLength_tokenLinesFrom_le [] (tokens source)
  have tokens := length_tokens_le source
  have empty : ({} : Draft).code.size = 0 := rfl
  have none : ([] : List Token).length = 0 := rfl
  rw [(Draft.assembled_of_link sound links).2]
  omega

end Assembly

end ScriptEngine
