/-
This file is about readers of tokens, in two judgements. One says that a reader accepts certain
words, which ones it leaves and what it gives; it is what a written line needs. The other says
what holds of anything a reader gives when it accepts, whatever the tokens were; it is what is
known of a program that was assembled. Neither looks at the places of tokens, which only messages
of errors use.
-/

import Mathlib
import ScriptEngine.Assembly.Assembler
import ScriptEngine.Proofs.Assembly.Lexing

namespace ScriptEngine.Assembly

open Text (ofChars chars)

variable {Result Other : Type}

/-! ### Lines of tokens -/

/-- A kind of token that ends a line. -/
def TokenKind.IsEnd (kind : TokenKind) : Prop := kind = .endOfLine ∨ kind = .endOfInput

theorem TokenKind.IsEnd.ne_identifier {kind : TokenKind} (isEnd : kind.IsEnd) :
    kind ≠ .identifier := by
  rcases isEnd with rfl | rfl <;> decide

theorem tokenLinesFrom_append {tokens : List Token}
    (inside : ∀ token ∈ tokens, ¬ token.kind.IsEnd) (line rest : List Token) :
    tokenLinesFrom line (tokens ++ rest) = tokenLinesFrom (line ++ tokens) rest := by
  induction tokens generalizing line with
  | nil => rw [List.nil_append, List.append_nil]
  | cons token others ih =>
    have notEnd : ¬ (token.kind = .endOfLine ∨ token.kind = .endOfInput) :=
      inside token List.mem_cons_self
    rw [List.cons_append, tokenLinesFrom, if_neg notEnd,
      ih (fun other member => inside other (List.mem_cons_of_mem _ member)), List.append_assoc,
      List.singleton_append]

theorem tokenLinesFrom_end {token : Token} (isEnd : token.kind.IsEnd) (line rest : List Token) :
    tokenLinesFrom line (token :: rest) = (line ++ [token]) :: tokenLinesFrom [] rest := by
  rw [tokenLinesFrom]
  exact if_pos isEnd

theorem not_isEnd_of_mem_words {row : Row} {word : Word} (member : word ∈ row.words) :
    ¬ word.1.IsEnd := by
  obtain ⟨scrap, -, isWord⟩ := List.mem_filterMap.mp member
  cases scrap <;> cases isWord <;> rintro (same | same) <;> cases same

/-- The tokens of rows come row by row from `tokenLinesFrom`, and behind them the end of the input.
-/
theorem map_word_tokenLinesFrom {tokens : List Token} {rows : List Row}
    (words : tokens.map Token.word =
      rows.flatMap (fun row => row.words ++ [(.endOfLine, [])]) ++ [(.endOfInput, [])]) :
    (tokenLinesFrom [] tokens).map (·.map Token.word) =
      rows.map (fun row => row.words ++ [(.endOfLine, [])]) ++ [[(.endOfInput, [])]] := by
  induction rows generalizing tokens with
  | nil =>
    obtain ⟨token, rfl, isEnd⟩ := List.map_eq_singleton_iff.mp words
    rw [tokenLinesFrom_end (Or.inr (congrArg Prod.fst isEnd))]
    exact congrArg (fun word => [[word]]) isEnd
  | cons row others ih =>
    rw [List.flatMap_cons, List.append_assoc, List.append_assoc, List.map_eq_append_iff] at words
    obtain ⟨front, behind, rfl, isFront, isBehind⟩ := words
    obtain ⟨token, rest, rfl, isEnd, isRest⟩ := List.map_eq_cons_iff.mp isBehind
    have inside : ∀ token ∈ front, ¬ token.kind.IsEnd := by
      intro token member
      have among : token.word ∈ row.words := isFront ▸ List.mem_map_of_mem member
      exact not_isEnd_of_mem_words among
    rw [tokenLinesFrom_append inside, tokenLinesFrom_end (Or.inl (congrArg Prod.fst isEnd)),
      List.map_cons, ih isRest, List.nil_append, List.map_append, isFront, List.map_singleton,
      isEnd, List.map_cons, List.cons_append]

/-! ### Readers that accept -/

/-- On tokens with the words `words` a reader leaves those with the words `rest`, and what it
gives is good. -/
def Reads (reader : Reader Result) (words rest : List Word) (Good : Result → Prop) : Prop :=
  ∀ tokens : List Token, tokens.map Token.word = words →
    ∃ result remaining, reader tokens = .ok (result, remaining) ∧
      remaining.map Token.word = rest ∧ Good result

theorem bind_eq_ok_iff {Error : Type} {first : Except Error Other}
    {next : Other → Except Error Result} {result : Result} :
    first >>= next = .ok result ↔ ∃ value, first = .ok value ∧ next value = .ok result := by
  cases first <;> simp [bind, Except.bind]

theorem mapError_eq_ok_iff {Error Wider : Type} {first : Except Error Result}
    {widen : Error → Wider} {result : Result} :
    first.mapError widen = .ok result ↔ first = .ok result := by
  cases first <;> simp [Except.mapError]

theorem run_bind_eq_ok_iff {reader : Reader Result} {next : Result → Reader Other}
    {tokens : List Token} {gained : Other × List Token} :
    (reader >>= next) tokens = .ok gained ↔
      ∃ result remaining, reader tokens = .ok (result, remaining) ∧
        next result remaining = .ok gained :=
  bind_eq_ok_iff.trans Prod.exists

theorem run_parameters (tokens : List Token) : parameters tokens = parametersFrom tokens [] := by
  show Except.bind (Except.bind (parametersFrom tokens []) _) _ = _
  cases parametersFrom tokens [] <;> rfl

theorem readLines_cons (draft : Draft) (tokens : List Token) (rest : List (List Token)) :
    readLines draft (tokens :: rest) =
      match line draft tokens with
      | .error error => .error error
      | .ok (next, _) => readLines next rest := by
  show Except.bind (Except.map _ (line draft tokens)) _ = _
  cases line draft tokens <;> rfl

theorem readLines_cons_eq_ok_iff {draft after : Draft} {tokens : List Token}
    {rest : List (List Token)} :
    readLines draft (tokens :: rest) = .ok after ↔
      ∃ next remaining, line draft tokens = .ok (next, remaining) ∧
        readLines next rest = .ok after := by
  rw [readLines_cons]
  rcases line draft tokens with error | ⟨next, remaining⟩ <;> simp

namespace Reads

variable {reader : Reader Result} {words middle rest : List Word}
  {Good : Result → Prop}

theorem pure {result : Result} (good : Good result) :
    Reads (Pure.pure result) words words Good :=
  fun tokens isWords => ⟨result, tokens, rfl, isWords, good⟩

theorem bind {next : Result → Reader Other} {Fine : Other → Prop}
    (first : Reads reader words middle Good)
    (second : ∀ result, Good result → Reads (next result) middle rest Fine) :
    Reads (reader >>= next) words rest Fine := by
  intro tokens isWords
  obtain ⟨result, remaining, gives, isMiddle, good⟩ := first tokens isWords
  obtain ⟨other, behind, gained, isRest, fine⟩ := second result good remaining isMiddle
  exact ⟨other, behind, run_bind_eq_ok_iff.mpr ⟨result, remaining, gives, gained⟩, isRest, fine⟩

theorem mono {Fine : Result → Prop} (reads : Reads reader words rest Good)
    (implies : ∀ result, Good result → Fine result) : Reads reader words rest Fine := by
  intro tokens isWords
  obtain ⟨result, remaining, gives, isRest, good⟩ := reads tokens isWords
  exact ⟨result, remaining, gives, isRest, implies result good⟩

theorem peek {word : Word} : Reads peek (word :: rest) (word :: rest) (·.word = word) := by
  intro tokens isWords
  obtain ⟨token, others, rfl, isWord, isRest⟩ := List.map_eq_cons_iff.mp isWords
  exact ⟨token, token :: others, rfl, isWords, isWord⟩

theorem skip {word : Word} : Reads skip (word :: rest) rest fun _ => True := by
  intro tokens isWords
  obtain ⟨token, others, rfl, isWord, isRest⟩ := List.map_eq_cons_iff.mp isWords
  exact ⟨(), others, rfl, isRest, trivial⟩

theorem next {kind : TokenKind} {text : Text} (valid : kind ≠ .invalid) :
    Reads next ((kind, text) :: rest) rest fun token => token.kind = kind ∧ token.text = text := by
  refine peek.bind fun token isWord => skip.bind fun _ _ => ?_
  obtain ⟨rfl, rfl⟩ := Prod.mk.inj isWord
  dsimp only
  rw [if_neg valid]
  exact .pure ⟨rfl, rfl⟩

theorem identifier {text : Text} :
    Reads identifier ((.identifier, text) :: rest) rest (·.text = text) := by
  refine (next (by decide)).bind fun token ⟨kind, isText⟩ => ?_
  dsimp only
  rw [if_neg (not_not.mpr kind)]
  exact .pure isText

theorem number {text : Text} :
    Reads number ((.number, text) :: rest) rest (·.text = text) := by
  refine (next (by decide)).bind fun token ⟨kind, isText⟩ => ?_
  dsimp only
  rw [if_neg (not_not.mpr kind)]
  exact .pure isText

theorem symbol {text : Text} :
    Reads (symbol text) ((.symbol, text) :: rest) rest fun _ => True := by
  refine (next (by decide)).bind fun token ⟨kind, isText⟩ => ?_
  rw [if_pos (by simp [Token.is, kind, isText])]
  exact .pure trivial

theorem endOfLine {kind : TokenKind} {text : Text} (isEnd : kind.IsEnd) :
    Reads endOfLine ((kind, text) :: rest) rest fun _ => True := by
  have valid : kind ≠ .invalid := by rcases isEnd with rfl | rfl <;> decide
  refine (next valid).bind fun token ⟨isKind, _⟩ => ?_
  rw [if_neg (by rw [isKind, ← not_or]; exact not_not.mpr isEnd)]
  exact .pure trivial

theorem firstWord?_end {kind : TokenKind} {text : Text} (isEnd : kind.IsEnd) :
    Reads firstWord? ((kind, text) :: rest) rest (· = none) := by
  rcases isEnd with rfl | rfl <;>
  · refine (next (by decide)).bind fun token ⟨kind, _⟩ => ?_
    rw [kind]
    exact .pure rfl

theorem firstWord?_identifier {text : Text} :
    Reads firstWord? ((.identifier, text) :: rest) rest
      fun found => ∃ token, found = some token ∧ token.text = text := by
  refine (next (by decide)).bind fun token ⟨kind, isText⟩ => ?_
  rw [kind]
  exact .pure ⟨token, rfl, isText⟩

end Reads

/-! ### What readers give -/

/-- A token as the lexer gives it: an identifier is a word. -/
def Token.Lexed (token : Token) : Prop :=
  token.kind = .identifier → isWord (chars token.text) = true

theorem take_runLength (belongs : Char → Bool) (rest : List Char) :
    rest.take (runLength belongs rest) = rest.takeWhile belongs :=
  (List.prefix_iff_eq_take.mp (List.takeWhile_prefix belongs)).symm

theorem isWord_of_lexemeAt {char : Char} {rest : List Char} {length : ℕ}
    (starts : lexemeAt char rest = (.identifier, length)) :
    isWord (char :: rest.take length) = true := by
  have body : ∀ other ∈ rest.takeWhile isIdentifierChar, isIdentifierChar other = true :=
    fun other member => List.mem_takeWhile_imp member
  unfold lexemeAt at starts
  split at starts
  · cases starts
  split at starts
  · cases starts
  split at starts
  · cases starts
  split at starts
  · split at starts <;> cases starts
  split at starts
  · cases starts
  rename_i notDigit
  rw [Bool.not_eq_true] at notDigit
  split at starts
  · case isTrue sign =>
    split at starts
    · cases starts
    rename_i signed
    cases starts
    have first : isIdentifierChar char = true :=
      (isIdentifierChar_numeral char (by rcases sign with rfl | rfl <;> simp)).1
    have unsigned : startsUnsigned (rest.takeWhile isIdentifierChar) = false := by
      cases rest with
      | nil => rfl
      | cons other others =>
        rw [List.takeWhile_cons]
        split
        · exact Bool.not_eq_true _ ▸ signed
        · rfl
    rw [take_runLength, isWord, unsigned, notDigit, Bool.and_false, List.all_cons, first,
      List.all_eq_true.mpr body]
    rfl
  · case isFalse notSign =>
    split at starts
    · cases starts
    split at starts
    · case isTrue first =>
      cases starts
      rw [not_or] at notSign
      rw [take_runLength, isWord, notDigit, List.all_cons, first, List.all_eq_true.mpr body]
      simp [notSign]
    · cases starts

theorem lexed_of_mem_tokens {source : Text} : ∀ token ∈ tokens source, token.Lexed := by
  have cut : ∀ (position : Position) (source : List Char),
      ∀ lexeme ∈ (lexemes position source).1,
        lexeme.sort = .identifier → isWord lexeme.chars = true := by
    intro position source
    fun_induction lexemes position source with
    | case1 => exact List.forall_mem_nil _
    | case2 position char rest sort length starts chars others last more ih =>
      refine List.forall_mem_cons.mpr ⟨?_, ?_⟩
      · rintro rfl
        exact isWord_of_lexemeAt starts
      · rw [more] at ih
        exact ih
  intro token member identifier
  rcases List.mem_append.mp member with found | last
  · obtain ⟨lexeme, among, isToken⟩ := List.mem_filterMap.mp found
    have word := cut {} source.chars lexeme among
    unfold Lexeme.token? at isToken
    dsimp only at isToken
    split at isToken
    case h_4 sort =>
      cases isToken
      rw [Text.chars_ofChars]
      exact word sort
    all_goals grind
  · rw [List.mem_singleton.mp last] at identifier
    cases identifier

/-- Whatever a reader gives is good. -/
def Yields (reader : Reader Result) (Good : Result → Prop) : Prop :=
  ∀ tokens : List Token, (∀ token ∈ tokens, token.Lexed) → ∀ result remaining,
    reader tokens = .ok (result, remaining) →
      Good result ∧ ∀ token ∈ remaining, token.Lexed

namespace Yields

variable {reader : Reader Result} {Good : Result → Prop}

theorem pure {result : Result} (good : Good result) : Yields (Pure.pure result) Good := by
  rintro tokens lexed _ _ ⟨⟩
  exact ⟨good, lexed⟩

theorem fail {token : Token} {problem : Problem} : Yields (fail token problem) Good :=
  fun _ _ _ _ gives => nomatch gives

theorem bind {next : Result → Reader Other} {Fine : Other → Prop} (first : Yields reader Good)
    (second : ∀ result, Good result → Yields (next result) Fine) :
    Yields (reader >>= next) Fine := by
  intro tokens lexed result remaining gives
  obtain ⟨middle, behind, ran, gained⟩ := run_bind_eq_ok_iff.mp gives
  obtain ⟨good, lexedBehind⟩ := first tokens lexed middle behind ran
  exact second middle good behind lexedBehind result remaining gained

theorem fail_bind {token : Token} {problem : Problem} {next : Other → Reader Result} :
    Yields (Assembly.fail token problem >>= next) Good :=
  fun _ _ _ _ gives => nomatch gives

theorem peek : Yields peek Token.Lexed := by
  rintro tokens lexed _ _ ⟨⟩
  refine ⟨?_, lexed⟩
  cases tokens with
  | nil => exact fun identifier => nomatch identifier
  | cons token rest => exact lexed token List.mem_cons_self

theorem skip : Yields skip fun _ => True := by
  rintro tokens lexed _ _ ⟨⟩
  exact ⟨trivial, fun token member => lexed token (List.mem_of_mem_tail member)⟩

theorem next : Yields next Token.Lexed := by
  refine peek.bind fun token lexed => skip.bind fun _ _ => ?_
  dsimp only
  split
  · exact fail_bind
  · exact .pure lexed

theorem identifier : Yields identifier fun token => isWord (chars token.text) = true := by
  refine next.bind fun token lexed => ?_
  dsimp only
  split
  · exact fail_bind
  · case isFalse kind => exact .pure (lexed (not_not.mp kind))

theorem number : Yields number fun _ => True := by
  refine next.bind fun token _ => ?_
  dsimp only
  split
  · exact fail_bind
  · exact .pure trivial

theorem symbol {text : Text} : Yields (symbol text) fun _ => True := by
  refine next.bind fun token _ => ?_
  split
  · exact .pure trivial
  · exact fail

theorem endOfLine : Yields endOfLine fun _ => True := by
  refine next.bind fun token _ => ?_
  split
  · exact fail
  · exact .pure trivial

theorem firstWord? : Yields firstWord? fun found => ∀ token ∈ found, token.Lexed := by
  refine next.bind fun token lexed => ?_
  split
  · exact .pure fun _ none => nomatch none
  · exact .pure fun _ none => nomatch none
  · refine .pure ?_
    rintro _ ⟨⟩
    exact lexed
  · exact fail

end Yields

end ScriptEngine.Assembly
