/-
This file is about labels. A label stands for the instruction behind it, so that its address is the
number of instructions on the lines above it. A line uses a label behind the sign `@`: as the
target of a jump, or as the entry of a function that it declares. Reading the lines one after
another keeps all this in the draft, and linking puts the address of the label to where a line uses
it.
-/

import Mathlib
import ScriptEngine.Proofs.Assembly.Extent

namespace ScriptEngine

namespace Assembly

variable {Result Other : Type}

/-! ### What a line says -/

/-- The label in front of a line. -/
def labelOf? : List Token → Option Text
  | word :: sign :: _ =>
    if word.kind = .identifier ∧ sign.is .symbol ":" = true then some word.text else none
  | _ => none

/-- A line behind its label. -/
def unlabelled (line : List Token) : List Token :=
  if (labelOf? line).isSome then line.drop 2 else line

/-- The opcode that the first word of an instruction names. -/
def leadingOpcode? : List Token → Option Opcode
  | word :: _ => if word.kind = .identifier then Opcode.ofName? word.text else none
  | [] => none

/-- The opcode of the instruction on a line. -/
def opcodeOf? (line : List Token) : Option Opcode :=
  leadingOpcode? (unlabelled line)

/-- The tokens behind the opcode of a line. -/
def operandOf (line : List Token) : List Token :=
  (unlabelled line).tail

/-- The label that is named as the target of a jump. -/
def targetLabel? : List Token → Option Text
  | sign :: label :: _ => if sign.is .symbol "@" then some label.text else none
  | _ => none

/-- The label behind the first sign `@`. -/
def signedLabel? (tokens : List Token) : Option Text :=
  targetLabel? (tokens.dropWhile fun token => !token.is .symbol "@")

/-- The label of a function that is declared, which has a bracket behind the word `func` or behind
its name. -/
def declaredLabel? : List Token → Option Text
  | first :: rest =>
    if first.is .symbol "(" then signedLabel? rest
    else if (rest.headD {}).is .symbol "(" then signedLabel? rest.tail
    else none
  | [] => none

/-- The label that is named as the entry of a function. -/
def entryLabel? : List Token → Option Text
  | word :: rest => if word.is .identifier "func" then declaredLabel? rest else none
  | [] => none

/-- The lines that hold an instruction. -/
def codeLines (lines : List (List Token)) : List (List Token) :=
  lines.filter fun line => (opcodeOf? line).isSome

/-- The address of a label: the number of instructions on the lines above it. -/
def addressOf? (lines : List (List Token)) (label : Text) : Option ℕ :=
  (lines.findIdx? fun line => labelOf? line = some label).map fun index =>
    (codeLines (lines.take index)).length

theorem addressOf?_append_singleton (lines : List (List Token)) (line : List Token)
    (label : Text) :
    addressOf? (lines ++ [line]) label =
      (addressOf? lines label).or
        (if labelOf? line = some label then some (codeLines lines).length else none) := by
  unfold addressOf?
  rw [List.findIdx?_append]
  cases found : lines.findIdx? fun line => labelOf? line = some label with
  | some index =>
    have inside : index ≤ lines.length :=
      (List.findIdx?_eq_some_iff_getElem.mp found).1.le
    rw [Option.some_or, Option.map_some, Option.map_some, List.take_append_of_le_length inside]
    rfl
  | none =>
    rw [List.findIdx?_cons]
    by_cases here : labelOf? line = some label
    · simp [here]
    · simp [here]

/-! ### What a reader takes -/

/-- There is a token if the next one is not the end of the input. -/
theorem exists_cons_of_kind {tokens : List Token} {kind : TokenKind}
    (isKind : (tokens.headD {}).kind = kind) (inside : kind ≠ .endOfInput) :
    ∃ token rest, tokens = token :: rest ∧ token.kind = kind := by
  cases tokens with
  | nil => exact absurd isKind.symm inside
  | cons token rest => exact ⟨token, rest, rfl, isKind⟩

/-- What a reader gives and leaves of some tokens is good, if it accepts them. -/
def Gives (reader : Reader Result) (tokens : List Token) (Good : Result → List Token → Prop) :
    Prop :=
  ∀ result remaining, reader tokens = .ok (result, remaining) → Good result remaining

namespace Gives

variable {tokens : List Token} {Good : Result → List Token → Prop}

theorem pure {result : Result} (good : Good result tokens) :
    Gives (Pure.pure result) tokens Good := by
  rintro _ _ ⟨⟩
  exact good

theorem fail {token : Token} {problem : Problem} : Gives (fail token problem) tokens Good :=
  fun _ _ gives => nomatch gives

theorem fail_bind {token : Token} {problem : Problem} {next : Other → Reader Result} :
    Gives (Assembly.fail token problem >>= next) tokens Good :=
  fun _ _ gives => nomatch gives

theorem bind {reader : Reader Other} {next : Other → Reader Result}
    {Fine : Other → List Token → Prop} (first : Gives reader tokens Fine)
    (second : ∀ result remaining, Fine result remaining → Gives (next result) remaining Good) :
    Gives (reader >>= next) tokens Good := by
  intro result remaining gives
  obtain ⟨middle, behind, ran, gained⟩ := run_bind_eq_ok_iff.mp gives
  exact second middle behind (first middle behind ran) result remaining gained

theorem peek {next : Token → Reader Result} (rest : Gives (next (tokens.headD {})) tokens Good) :
    Gives (Assembly.peek >>= next) tokens Good :=
  rest

theorem skip {next : Unit → Reader Result} (rest : Gives (next ()) tokens.tail Good) :
    Gives (Assembly.skip >>= next) tokens Good :=
  rest

theorem mono {reader : Reader Result} {Fine : Result → List Token → Prop}
    (gives : Gives reader tokens Fine)
    (implies : ∀ result remaining, Fine result remaining → Good result remaining) :
    Gives reader tokens Good :=
  fun result remaining ran => implies result remaining (gives result remaining ran)

theorem next {other : Token → Reader Result}
    (rest : Gives (other (tokens.headD {})) tokens.tail Good) :
    Gives (Assembly.next >>= other) tokens Good := by
  have first : Gives Assembly.next tokens fun token remaining =>
      token = tokens.headD {} ∧ remaining = tokens.tail := by
    refine peek (skip ?_)
    dsimp only
    split
    · exact fail_bind
    · exact pure ⟨rfl, rfl⟩
  refine first.bind ?_
  rintro _ _ ⟨rfl, rfl⟩
  exact rest

/-- There is a token if an identifier is taken. -/
theorem identifier {other : Token → Reader Result}
    (rest : ∀ token behind, tokens = token :: behind → token.kind = .identifier →
      Gives (other token) behind Good) :
    Gives (Assembly.identifier >>= other) tokens Good := by
  have first : Gives Assembly.identifier tokens fun token remaining =>
      tokens = token :: remaining ∧ token.kind = .identifier := by
    refine next ?_
    dsimp only
    split
    · exact fail_bind
    · case isFalse kind =>
      obtain ⟨token, behind, rfl, isWord⟩ := exists_cons_of_kind (not_not.mp kind) (by decide)
      exact pure ⟨rfl, isWord⟩
  exact first.bind fun token behind ⟨taken, kind⟩ => rest token behind taken kind

theorem symbol {text : Text} {other : Unit → Reader Result}
    (rest : ∀ token behind, tokens = token :: behind → token.is .symbol text = true →
      Gives (other ()) behind Good) :
    Gives (Assembly.symbol text >>= other) tokens Good := by
  have first : Gives (Assembly.symbol text) tokens fun _ remaining =>
      ∃ token, tokens = token :: remaining ∧ token.is .symbol text = true := by
    refine next ?_
    split
    · case isTrue isSymbol =>
      cases tokens with
      | nil => cases isSymbol
      | cons token behind => exact pure ⟨token, rfl, isSymbol⟩
    · exact fail
  exact first.bind fun _ behind ⟨token, taken, isSymbol⟩ => rest token behind taken isSymbol

/-- What is read in front of the end of a line is what the line gives. -/
theorem endOfLine {result : Result}
    (good : (∀ token ∈ tokens.head?, token.kind.IsEnd) → Good result tokens.tail) :
    Gives (do Assembly.endOfLine; return result) tokens Good := by
  have first : Gives Assembly.endOfLine tokens fun _ remaining =>
      (∀ token ∈ tokens.head?, token.kind.IsEnd) ∧ remaining = tokens.tail := by
    refine next ?_
    split
    · exact fail
    · case isFalse notOther =>
      refine pure ⟨fun token isHead => ?_, rfl⟩
      rw [List.headD_eq_head?_getD, isHead, ← not_or, not_not] at notOther
      exact notOther
  refine first.bind ?_
  rintro _ _ ⟨isEnd, rfl⟩
  exact pure (good isEnd)

end Gives

/-! ### Functions -/

theorem signedLabel?_cons {token : Token} (other : token.is .symbol "@" = false)
    (rest : List Token) : signedLabel? (token :: rest) = signedLabel? rest := by
  unfold signedLabel?
  rw [List.dropWhile_cons_of_pos (by rw [other]; rfl)]

theorem signedLabel?_of_sign {sign : Token} (isSign : sign.is .symbol "@" = true)
    (rest : List Token) : signedLabel? (sign :: rest) = targetLabel? (sign :: rest) := by
  unfold signedLabel?
  rw [List.dropWhile_cons_of_neg (by rw [isSign]; exact Bool.false_ne_true)]

/-- A token that is something else is no sign. -/
theorem is_symbol_of_identifier {token : Token} (kind : token.kind = .identifier) (text : Text) :
    token.is .symbol text = false := by
  unfold Token.is
  rw [kind]
  rfl

theorem is_sign_of_symbol {token : Token} {text : Text} (isSymbol : token.is .symbol text = true)
    (other : text ≠ "@") : token.is .symbol "@" = false := by
  unfold Token.is at isSymbol ⊢
  simp only [Bool.and_eq_true, decide_eq_true_eq] at isSymbol
  rw [isSymbol.2, decide_eq_false other, Bool.and_false]

/-- There is no sign among the parameters of a function. -/
theorem signedLabel?_of_parametersFrom : ∀ (tokens : List Token) {names found : List Text}
    {remaining : List Token}, parametersFrom tokens names = .ok (found, remaining) →
      signedLabel? tokens = signedLabel? remaining
  | [], names, found, remaining, gives => by
    cases gives
    rfl
  | token :: rest, names, found, remaining, gives => by
    unfold parametersFrom at gives
    dsimp only at gives
    split at gives
    · cases gives
    split at gives
    · case isTrue closing =>
      cases gives
      exact signedLabel?_cons (is_sign_of_symbol closing (by decide)) rest
    split at gives
    · split at gives
      · cases gives
      · case isFalse kind =>
        rw [signedLabel?_cons (is_symbol_of_identifier (not_not.mp kind) _)]
        exact signedLabel?_of_parametersFrom rest gives
    split at gives
    · case isTrue comma =>
      rw [signedLabel?_cons (is_sign_of_symbol comma (by decide))]
      cases rest with
      | nil =>
        cases gives
        rfl
      | cons second more =>
        dsimp only at gives
        split at gives
        · cases gives
        split at gives
        · cases gives
        · case isFalse kind =>
          rw [signedLabel?_cons (is_symbol_of_identifier (not_not.mp kind) _)]
          exact signedLabel?_of_parametersFrom more gives
    · cases gives
termination_by tokens => tokens.length

namespace Gives

variable {draft : Draft} {tokens : List Token}

theorem declaration (name : Text) :
    Gives (Assembly.declaration name) tokens fun function _ => ∃ bracket rest,
      tokens = bracket :: rest ∧ bracket.is .symbol "(" = true ∧
      signedLabel? rest = some function.2.label := by
  refine symbol fun bracket rest taken isBracket => ?_
  have params : Gives parameters rest fun _ remaining =>
      signedLabel? rest = signedLabel? remaining := by
    intro names remaining gives
    rw [run_parameters] at gives
    exact signedLabel?_of_parametersFrom rest gives
  refine params.bind fun names behind same => symbol fun sign more isBehind isSign => ?_
  refine identifier fun label others isMore _ => ?_
  have constructed : Gives construct others fun _ _ => True := fun _ _ _ => trivial
  refine constructed.bind fun constructs remaining _ => pure ⟨bracket, rest, taken, isBracket, ?_⟩
  rw [same, isBehind, signedLabel?_of_sign isSign, isMore, targetLabel?, if_pos isSign]
  rfl

/-- A function is declared with the label that `declaredLabel?` finds for it, or used again. -/
theorem function (draft : Draft) :
    Gives (Assembly.function draft) tokens fun (after, index) _ =>
      (after = draft ∧ declaredLabel? tokens = none) ∨
      ∃ function : Declaration × LabelUse, declaredLabel? tokens = some function.2.label ∧
        (after, index) = draft.addFunction function := by
  refine peek ?_
  split
  · case isTrue kind =>
    obtain ⟨word, rest, rfl, _⟩ := exists_cons_of_kind kind (by decide)
    have noBracket : word.is .symbol "(" = false := is_symbol_of_identifier kind _
    refine skip (peek ?_)
    split
    · case isTrue bracket =>
      split
      · exact fail
      · refine (declaration word.text).bind fun function remaining declared => pure (.inr ?_)
        obtain ⟨other, behind, isRest, _, label⟩ := declared
        refine ⟨function, ?_, rfl⟩
        rw [declaredLabel?, noBracket, if_neg Bool.false_ne_true, if_pos (by exact bracket),
          show rest = _ from isRest, List.tail_cons, label]
    · case isFalse bracket =>
      split
      · refine pure (.inl ⟨rfl, ?_⟩)
        rw [declaredLabel?, noBracket, if_neg Bool.false_ne_true, if_neg (by exact bracket)]
      · exact fail
  · refine (declaration []).bind fun function remaining declared => pure (.inr ?_)
    obtain ⟨bracket, rest, rfl, isBracket, label⟩ := declared
    refine ⟨function, ?_, rfl⟩
    rw [declaredLabel?, if_pos isBracket, label]

end Gives

/-! ### Instructions -/

namespace Draft

/-- Functions of a draft are there in another one. -/
def Offers (draft after : Draft) : Prop :=
  ∀ (index : ℕ) function, draft.functions[index]? = some function →
    after.functions[index]? = some function

/-- An operand is a function of a draft whose entry is a label. -/
def Enters (draft : Draft) (datum : Datum ℕ) (label : Text) : Prop :=
  ∃ index declaration use, datum = .ofObject (some index) ∧
    draft.functions[index]? = some (declaration, use) ∧ use.label = label

/-- What an instruction adds to a draft, if its operand is written as these tokens. -/
structure Adds (draft : Draft) (opcode : Opcode) (operand : List Token) (after : Draft) :
    Prop where
  labels : after.labels = draft.labels
  functions : draft.Offers after
  code : ∃ instruction, instruction.opcode = opcode ∧ after.code = draft.code.push instruction ∧
    ∀ label, opcode = .push → entryLabel? operand = some label →
      after.Enters instruction.datum label
  jumps : (after.jumps = draft.jumps ∧ (opcode.isJump = true → targetLabel? operand = none)) ∨
    ∃ use, after.jumps = draft.jumps ++ [(draft.code.size, use)] ∧
      targetLabel? operand = some use.label

theorem offers_addFunction (draft : Draft) (function : Declaration × LabelUse) :
    draft.Offers (draft.addFunction function).1 := by
  intro index other found
  have below := (Array.getElem?_eq_some_iff.mp found).1
  exact (Array.getElem?_push_lt below).trans
    ((Array.getElem?_eq_getElem below).symm.trans found)

/-- What an instruction `Adds` that neither jumps nor pushes a function. -/
theorem adds_plain {draft : Draft} {opcode : Opcode} {datum : Datum ℕ} {operand : List Token}
    (noJump : opcode.isJump = false) (noPush : opcode ≠ .push) :
    draft.Adds opcode operand (draft.addInstruction { opcode, datum }) where
  labels := rfl
  functions _ _ found := found
  code := ⟨_, rfl, rfl, fun _ isPush => absurd isPush noPush⟩
  jumps := .inl ⟨rfl, fun isJump => absurd isJump (by rw [noJump]; exact Bool.false_ne_true)⟩

end Draft

namespace Gives

variable {draft : Draft} {tokens : List Token}

theorem literal (draft : Draft) :
    Gives (Assembly.literal draft) tokens fun (after, datum) _ =>
      after.labels = draft.labels ∧ draft.Offers after ∧ after.code = draft.code ∧
      after.jumps = draft.jumps ∧
      ∀ label, entryLabel? tokens = some label → after.Enters datum label := by
  have plain {datum : Datum ℕ} {remaining : List Token}
      (other : (tokens.headD {}).is .identifier "func" = false) :
      Gives (Pure.pure (draft, datum) : Reader (Draft × Datum ℕ)) remaining fun (after, datum) _ =>
        after.labels = draft.labels ∧ draft.Offers after ∧ after.code = draft.code ∧
        after.jumps = draft.jumps ∧
        ∀ label, entryLabel? tokens = some label → after.Enters datum label := by
    refine pure ⟨rfl, fun _ _ found => found, rfl, rfl, fun label named => ?_⟩
    cases tokens with
    | nil => cases named
    | cons word rest =>
      rw [entryLabel?, show word.is .identifier "func" = false from other] at named
      cases named
  have apart {kind : TokenKind} (isKind : (tokens.headD {}).kind = kind)
      (other : kind ≠ .identifier) : (tokens.headD {}).is .identifier "func" = false := by
    unfold Token.is
    rw [isKind, decide_eq_false other, Bool.false_and]
  refine next ?_
  split
  · case h_1 kind =>
    split
    · exact plain (apart kind (by decide))
    · exact fail
  · case h_2 kind => exact plain (apart kind (by decide))
  · case h_3 kind =>
    split
    · case isTrue isFunc =>
      obtain ⟨word, rest, rfl, _⟩ := exists_cons_of_kind kind (by decide)
      have isWord : word.is .identifier "func" = true := by
        unfold Token.is
        rw [show word.kind = _ from kind, show word.text = _ from isFunc]
        decide
      refine (function draft).bind fun (after, index) remaining ways => pure ?_
      rcases ways with ⟨rfl, absent⟩ | ⟨function, named, added⟩
      · refine ⟨rfl, fun _ _ found => found, rfl, rfl, fun label found => ?_⟩
        rw [entryLabel?, if_pos isWord, show declaredLabel? rest = none from absent] at found
        cases found
      · cases added
        refine ⟨rfl, draft.offers_addFunction function, rfl, rfl, fun label found => ?_⟩
        rw [entryLabel?, if_pos isWord, show declaredLabel? rest = _ from named] at found
        exact ⟨_, function.1, function.2, rfl, Array.getElem?_push_size, Option.some.inj found⟩
    · case isFalse noFunc =>
      split
      · refine plain ?_
        unfold Token.is
        rw [decide_eq_false noFunc, Bool.and_false]
      · exact fail
  · exact fail

theorem jumpTarget :
    Gives Assembly.jumpTarget tokens fun target _ =>
      (∃ use, target = .inl use ∧ targetLabel? tokens = some use.label) ∨
      ∃ offset, target = .inr offset ∧ targetLabel? tokens = none := by
  refine next ?_
  split
  · case isTrue sign =>
    refine identifier fun label behind isTail _ => pure (.inl ⟨_, rfl, ?_⟩)
    cases tokens with
    | nil => cases sign
    | cons first rest =>
      rw [show rest = _ from isTail, targetLabel?, if_pos (by exact sign)]
      rfl
  split
  · case isFalse.isTrue noSign _ =>
    split
    · refine pure (.inr ⟨_, rfl, ?_⟩)
      match tokens with
      | [] => rfl
      | [_] => rfl
      | first :: label :: rest =>
        rw [targetLabel?, if_neg (by exact noSign)]
    · exact fail
  · exact fail

theorem instruction (draft : Draft) (opcode : Opcode) :
    Gives (Assembly.instruction draft opcode) tokens fun after _ =>
      draft.Adds opcode tokens after := by
  have plain {datum : Datum ℕ} {operand : Opcode.OperandClass} {remaining : List Token}
      (isClass : opcode.operandClass = operand) (noJump : operand ≠ .jump)
      (noPush : operand ≠ .literal) :
      Gives (Pure.pure (draft.addInstruction { opcode, datum }) : Reader Draft) remaining
        fun after _ => draft.Adds opcode tokens after := by
    refine pure (Draft.adds_plain (Bool.eq_false_iff.mpr fun isJump => noJump ?_)
      fun isPush => noPush ?_)
    · rw [← isClass, Opcode.operandClass_eq_jump.mpr isJump]
    · rw [← isClass, isPush]
      rfl
  have any {Value : Type} (reader : Reader Value) : Gives reader tokens fun _ _ => True :=
    fun _ _ _ => trivial
  unfold Assembly.instruction
  split
  · case h_1 isClass => exact plain isClass (by decide) (by decide)
  · case h_2 isClass =>
    exact (any nameDatum).bind fun _ _ _ => plain isClass (by decide) (by decide)
  · case h_3 isClass =>
    exact (any countDatum).bind fun _ _ _ => plain isClass (by decide) (by decide)
  · case h_4 isClass =>
    refine (literal draft).bind fun (after, datum) _ read => pure ?_
    obtain ⟨labels, functions, code, jumps, enters⟩ := read
    refine ⟨labels, functions,
      ⟨{ opcode, datum }, rfl, ?_, fun label _ named => enters label named⟩,
      .inl ⟨jumps, fun isJump => ?_⟩⟩
    · rw [Draft.addInstruction, code]
    · cases (Opcode.operandClass_eq_jump.mpr isJump).symm.trans isClass
  · case h_5 isClass =>
    have noPush : opcode ≠ .push := by
      rintro rfl
      cases isClass
    refine jumpTarget.bind fun target _ ways => ?_
    rcases ways with ⟨use, rfl, named⟩ | ⟨offset, rfl, absent⟩
    · exact pure ⟨rfl, fun _ _ found => found,
        ⟨_, rfl, rfl, fun _ isPush => absurd isPush noPush⟩, .inr ⟨use, rfl, named⟩⟩
    · exact pure ⟨rfl, fun _ _ found => found,
        ⟨_, rfl, rfl, fun _ isPush => absurd isPush noPush⟩, .inl ⟨rfl, fun _ => absent⟩⟩

end Gives

/-! ### Lines -/

namespace Draft

/-- A draft with the label of a line. -/
def withLabelOf (draft : Draft) (line : List Token) : Draft :=
  { draft with labels := draft.labels ++ (labelOf? line).toList.map (·, draft.code.size) }

/-- What some tokens that start with a word add to a draft: an instruction or a bound. -/
def Grows (draft : Draft) (tokens : List Token) (after : Draft) : Prop :=
  (leadingOpcode? tokens = none ∧ ∃ entry stop, after = { draft with entry, stop }) ∨
    ∃ opcode, leadingOpcode? tokens = some opcode ∧ draft.Adds opcode tokens.tail after

/-- What a line adds to a draft. -/
def Takes (draft : Draft) (line : List Token) (after : Draft) : Prop :=
  (draft.withLabelOf line).Grows (unlabelled line) after

end Draft

/-- A directive is no opcode. -/
theorem ofName?_of_dot {word : Text} (dot : word.head? = some 46) :
    Opcode.ofName? word = none := by
  have names : ∀ opcode ∈ Opcode.valid, opcode.name.head? ≠ some 46 := by decide
  refine List.find?_eq_none.mpr fun opcode member isName => names opcode member ?_
  rw [of_decide_eq_true isName, dot]

/-- Tokens that start with the end of a line have neither a label nor an opcode. -/
theorem labelOf?_of_end {tokens : List Token}
    (ends : ∀ token ∈ tokens.head?, token.kind.IsEnd) :
    labelOf? tokens = none ∧ leadingOpcode? tokens = none := by
  have noWord : ∀ token ∈ tokens.head?, token.kind ≠ .identifier :=
    fun token isHead => (ends token isHead).ne_identifier
  match tokens with
  | [] => exact ⟨rfl, rfl⟩
  | [token] => exact ⟨rfl, if_neg (noWord token rfl)⟩
  | token :: sign :: rest =>
    exact ⟨if_neg fun both => noWord token rfl both.1, if_neg (noWord token rfl)⟩

theorem labelOf?_of_noSign {token : Token} {behind : List Token}
    (noSign : (behind.headD {}).is .symbol ":" = false) : labelOf? (token :: behind) = none := by
  cases behind with
  | nil => rfl
  | cons sign rest =>
    exact if_neg fun both => absurd (noSign.symm.trans both.2) Bool.false_ne_true

/-- A draft that `Grows` by a line without a label `Takes` the line. -/
theorem Draft.Grows.takes {draft after : Draft} {line : List Token} (grows : draft.Grows line after)
    (noLabel : labelOf? line = none) : draft.Takes line after := by
  have same : draft.withLabelOf line = draft := by
    unfold Draft.withLabelOf
    rw [noLabel, Option.toList_none, List.map_nil, List.append_nil]
  have whole : unlabelled line = line := by
    unfold unlabelled
    rw [noLabel]
    rfl
  unfold Draft.Takes
  rw [same, whole]
  exact grows

namespace Gives

variable {draft : Draft} {tokens : List Token} {Good : Result → List Token → Prop}

theorem firstWord? {other : Option Token → Reader Result}
    (ends : (∀ token ∈ tokens.head?, token.kind.IsEnd) → Gives (other none) tokens.tail Good)
    (starts : ∀ token behind, tokens = token :: behind → token.kind = .identifier →
      Gives (other (some token)) behind Good) :
    Gives (Assembly.firstWord? >>= other) tokens Good := by
  have first : Gives Assembly.firstWord? tokens fun found remaining =>
      (found = none ∧ remaining = tokens.tail ∧ ∀ token ∈ tokens.head?, token.kind.IsEnd) ∨
      ∃ token, found = some token ∧ tokens = token :: remaining ∧ token.kind = .identifier := by
    have atEnd {kind : TokenKind} (isKind : (tokens.headD {}).kind = kind) (isEnd : kind.IsEnd) :
        ∀ token ∈ tokens.head?, token.kind.IsEnd := by
      intro token isHead
      rw [List.headD_eq_head?_getD, isHead] at isKind
      exact isKind ▸ isEnd
    refine next ?_
    split
    · case h_1 kind => exact pure (.inl ⟨rfl, rfl, atEnd kind (.inr rfl)⟩)
    · case h_2 kind => exact pure (.inl ⟨rfl, rfl, atEnd kind (.inl rfl)⟩)
    · case h_3 kind =>
      obtain ⟨token, behind, rfl, isWord⟩ := exists_cons_of_kind kind (by decide)
      exact pure (.inr ⟨token, rfl, rfl, isWord⟩)
    · exact fail
  refine first.bind ?_
  rintro found remaining (⟨rfl, rfl, atEnd⟩ | ⟨token, rfl, taken, kind⟩)
  · exact ends atEnd
  · exact starts token remaining taken kind

theorem statement {token : Token} (kind : token.kind = .identifier) :
    Gives (Assembly.statement draft token) tokens fun after _ =>
      draft.Grows (token :: tokens) after := by
  have isFirst : leadingOpcode? (token :: tokens) = Opcode.ofName? token.text := if_pos kind
  unfold Assembly.statement
  dsimp only
  split
  · case isTrue dot =>
    have directed : Gives (directive draft token) tokens fun after _ =>
        ∃ entry stop, after = { draft with entry, stop } := by
      refine identifier fun label behind _ _ => ?_
      dsimp only
      split
      · exact pure ⟨_, _, rfl⟩
      split
      · exact pure ⟨_, _, rfl⟩
      · exact fail
    exact directed.bind fun after _ bounds => endOfLine fun _ =>
      .inl ⟨isFirst.trans (ofName?_of_dot dot), bounds⟩
  split
  · case h_1 opcode named =>
    exact (instruction draft opcode).bind fun after _ adds => endOfLine fun _ =>
      .inr ⟨opcode, isFirst.trans named, adds⟩
  · exact fail_bind

theorem line (draft : Draft) :
    Gives (Assembly.line draft) tokens fun after _ => draft.Takes tokens after := by
  refine firstWord? (fun atEnd => pure ?_) fun token behind isTokens kind => peek ?_
  · obtain ⟨noLabel, noOpcode⟩ := labelOf?_of_end atEnd
    exact Draft.Grows.takes (.inl ⟨noOpcode, _, _, rfl⟩) noLabel
  subst isTokens
  split
  · case isTrue isSign =>
    obtain ⟨sign, rest, rfl⟩ : ∃ sign rest, behind = sign :: rest := by
      cases behind with
      | nil => cases isSign
      | cons sign rest => exact ⟨sign, rest, rfl⟩
    have label : labelOf? (token :: sign :: rest) = some token.text := if_pos ⟨kind, isSign⟩
    have whole : unlabelled (token :: sign :: rest) = rest := by
      unfold unlabelled
      rw [label]
      rfl
    have same : draft.withLabelOf (token :: sign :: rest) =
        { draft with labels := draft.labels ++ [(token.text, draft.code.size)] } := by
      unfold Draft.withLabelOf
      rw [label]
      rfl
    refine skip ?_
    dsimp only
    split
    · exact fail_bind
    · refine firstWord? (fun atEnd => pure ?_) fun word more isRest kind => ?_
      · unfold Draft.Takes
        rw [same, whole]
        exact .inl ⟨(labelOf?_of_end atEnd).2, _, _, rfl⟩
      · refine (statement kind).mono fun after _ grows => ?_
        unfold Draft.Takes
        rw [same, whole, show rest = _ from isRest]
        exact grows
  · case isFalse noSign =>
    have noLabel : labelOf? (token :: behind) = none :=
      labelOf?_of_noSign (Bool.not_eq_true _ ▸ noSign)
    exact (statement kind).mono fun after _ grows => grows.takes noLabel

end Gives

/-! ### All lines -/

namespace Draft

/-- The instruction at an address is the one of a line, and its label is noted down. -/
structure Represents (draft : Draft) (pc : ℕ) (line : List Token) : Prop where
  instruction : ∃ instruction, draft.code[pc]? = some instruction ∧
    opcodeOf? line = some instruction.opcode ∧
    ∀ label, instruction.opcode = .push → entryLabel? (operandOf line) = some label →
      draft.Enters instruction.datum label
  target : ∀ opcode label, opcodeOf? line = some opcode → opcode.isJump = true →
    targetLabel? (operandOf line) = some label → ∃ use, (pc, use) ∈ draft.jumps ∧ use.label = label

/-- What holds of a draft behind some lines: its labels have the addresses `addressOf?` gives them,
and it `Represents` the instruction of each line. -/
structure Faithful (draft : Draft) (lines : List (List Token)) : Prop where
  size : draft.code.size = (codeLines lines).length
  labels : ∀ label, draft.address? label = addressOf? lines label
  lines : ∀ (pc : ℕ) line, (codeLines lines)[pc]? = some line → draft.Represents pc line
  apart : (draft.jumps.map Prod.fst).Nodup
  within : ∀ jump ∈ draft.jumps, jump.1 < draft.code.size

variable {draft after : Draft} {lines : List (List Token)} {line : List Token} {pc : ℕ}

theorem faithful_nil : Faithful {} [] where
  size := rfl
  labels _ := rfl
  lines _ _ found := by cases found
  apart := List.nodup_nil
  within := List.forall_mem_nil _

/-- A draft that goes on `Represents` what it has represented. -/
theorem Represents.mono (represents : draft.Represents pc line)
    (code : ∀ instruction, draft.code[pc]? = some instruction →
      after.code[pc]? = some instruction)
    (functions : draft.Offers after) (jumps : draft.jumps ⊆ after.jumps) :
    after.Represents pc line := by
  obtain ⟨instruction, found, isOpcode, enters⟩ := represents.instruction
  refine ⟨⟨instruction, code instruction found, isOpcode, fun label isPush named => ?_⟩, ?_⟩
  · obtain ⟨index, declaration, use, datum, isFunction, isLabel⟩ := enters label isPush named
    exact ⟨index, declaration, use, datum, functions index _ isFunction, isLabel⟩
  · intro opcode label isOpcode isJump named
    obtain ⟨use, member, isLabel⟩ := represents.target opcode label isOpcode isJump named
    exact ⟨use, jumps member, isLabel⟩

/-- In a `Faithful` draft the label of the next line stands for the next instruction. -/
theorem Faithful.address?_eq (faithful : draft.Faithful lines)
    (labels : after.labels = (draft.withLabelOf line).labels) (label : Text) :
    after.address? label = addressOf? (lines ++ [line]) label := by
  unfold address?
  rw [labels, withLabelOf, List.lookup_append, addressOf?_append_singleton, ← faithful.labels label,
    ← faithful.size]
  congr 1
  cases labelOf? line with
  | none => rfl
  | some other =>
    rw [Option.toList_some, List.map_singleton, List.lookup_cons, List.lookup_nil]
    by_cases same : label = other
    · rw [same, beq_self_eq_true, if_pos rfl]
    · rw [beq_false_of_ne same, if_neg fun equal => same (Option.some.inj equal).symm]

/-- A line without an instruction keeps the draft `Faithful`. -/
theorem Faithful.bounds (faithful : draft.Faithful lines) (noOpcode : opcodeOf? line = none)
    (entry stop : Option LabelUse) :
    Faithful { draft.withLabelOf line with entry, stop } (lines ++ [line]) := by
  have same : codeLines (lines ++ [line]) = codeLines lines := by
    unfold codeLines
    rw [List.filter_append, List.filter_singleton, noOpcode]
    exact List.append_nil _
  refine ⟨?_, faithful.address?_eq rfl, ?_, faithful.apart, faithful.within⟩
  · rw [same]
    exact faithful.size
  · intro pc other found
    rw [same] at found
    exact (faithful.lines pc other found).mono (fun _ present => present)
      (fun _ _ offered => offered) (List.Subset.refl _)

/-- The instruction that a line `Adds` is represented behind all others. -/
theorem Adds.represents {opcode : Opcode} (isOpcode : opcodeOf? line = some opcode)
    (adds : draft.Adds opcode (operandOf line) after) : after.Represents draft.code.size line := by
  obtain ⟨instruction, rfl, code, enters⟩ := adds.code
  refine ⟨⟨instruction, ?_, isOpcode, enters⟩, fun opcode label named isJump isLabel => ?_⟩
  · rw [code]
    exact Array.getElem?_push_size
  · cases isOpcode.symm.trans named
    rcases adds.jumps with ⟨_, absent⟩ | ⟨use, added, target⟩
    · cases (absent isJump).symm.trans isLabel
    · refine ⟨use, ?_, Option.some.inj (target.symm.trans isLabel)⟩
      rw [added]
      exact List.mem_append_right _ (List.mem_singleton_self _)

/-- A jump that is noted down is the last one. -/
theorem Adds.jumps_apart {opcode : Opcode} {operand : List Token}
    (adds : draft.Adds opcode operand after) (apart : (draft.jumps.map Prod.fst).Nodup)
    (within : ∀ jump ∈ draft.jumps, jump.1 < draft.code.size) :
    draft.jumps ⊆ after.jumps ∧ (after.jumps.map Prod.fst).Nodup ∧
      ∀ jump ∈ after.jumps, jump.1 < draft.code.size + 1 := by
  rcases adds.jumps with ⟨same, _⟩ | ⟨use, added, _⟩
  · rw [same]
    exact ⟨List.Subset.refl _, apart, fun jump member => Nat.lt_succ_of_lt (within jump member)⟩
  · rw [added]
    refine ⟨List.subset_append_left _ _, ?_, ?_⟩
    · rw [List.map_append, List.nodup_append]
      refine ⟨apart, List.nodup_singleton _, fun address member other last => ?_⟩
      obtain ⟨jump, isJump, rfl⟩ := List.mem_map.mp member
      rw [List.mem_singleton.mp last]
      exact (within jump isJump).ne
    · refine List.forall_mem_append.mpr ⟨fun jump member => Nat.lt_succ_of_lt (within jump member),
        List.forall_mem_singleton.mpr (Nat.lt_succ_self _)⟩

/-- So does a line with an instruction. -/
theorem Faithful.adds {opcode : Opcode} (faithful : draft.Faithful lines)
    (isOpcode : opcodeOf? line = some opcode)
    (adds : (draft.withLabelOf line).Adds opcode (operandOf line) after) :
    after.Faithful (lines ++ [line]) := by
  have more : codeLines (lines ++ [line]) = codeLines lines ++ [line] := by
    unfold codeLines
    rw [List.filter_append, List.filter_singleton, isOpcode]
    rfl
  obtain ⟨instruction, _, code, _⟩ := adds.code
  have size : after.code.size = draft.code.size + 1 := by
    rw [code]
    exact Array.size_push _
  obtain ⟨kept, apart, within⟩ := adds.jumps_apart faithful.apart faithful.within
  refine ⟨?_, faithful.address?_eq adds.labels, ?_, apart, size.symm ▸ within⟩
  · rw [size, more, List.length_append, faithful.size]
    rfl
  intro pc other found
  rw [more] at found
  rcases Nat.lt_or_ge pc (codeLines lines).length with earlier | last
  · rw [List.getElem?_append_left earlier] at found
    refine (faithful.lines pc other found).mono (fun before present => ?_) adds.functions kept
    rw [code]
    exact (Array.getElem?_push_lt (faithful.size ▸ earlier)).trans
      ((Array.getElem?_eq_getElem _).symm.trans present)
  · rw [List.getElem?_append_right last, List.getElem?_singleton] at found
    split at found
    · case isTrue here =>
      cases found
      rw [show pc = (draft.withLabelOf line).code.size from by
        rw [show (draft.withLabelOf line).code.size = _ from faithful.size]; omega]
      exact adds.represents isOpcode
    · cases found

/-- A line that a draft `Takes` keeps it `Faithful`. -/
theorem Faithful.takes (faithful : draft.Faithful lines) (takes : draft.Takes line after) :
    after.Faithful (lines ++ [line]) := by
  rcases takes with ⟨noOpcode, entry, stop, rfl⟩ | ⟨opcode, isOpcode, adds⟩
  · exact faithful.bounds noOpcode entry stop
  · exact faithful.adds isOpcode adds

end Draft

theorem faithful_of_readLines {draft after : Draft} {before lines : List (List Token)}
    (faithful : draft.Faithful before) (read : readLines draft lines = .ok after) :
    after.Faithful (before ++ lines) := by
  induction lines generalizing draft before with
  | nil =>
    cases read
    rwa [List.append_nil]
  | cons tokens rest ih =>
    obtain ⟨next, remaining, ran, others⟩ := readLines_cons_eq_ok_iff.mp read
    have later := ih (faithful.takes (Gives.line draft next remaining ran)) others
    rwa [List.append_assoc, List.singleton_append] at later

/-! ### Linking -/

namespace Draft

variable {draft : Draft}

theorem address?_of_resolve {use : LabelUse} {address : ℕ}
    (resolved : draft.resolve use = .ok address) : draft.address? use.label = some address := by
  unfold resolve at resolved
  split at resolved
  · case h_1 found =>
    cases resolved
    exact found
  · cases resolved

/-- `linkJumps` gives each jump that is noted down its offset, and leaves all other instructions as
they are. -/
theorem linkJumps_getElem? {jumps : List (ℕ × LabelUse)} {code linked : Array (Instruction ℕ)}
    (links : draft.linkJumps jumps code = .ok linked) (apart : (jumps.map Prod.fst).Nodup) :
    (∀ pc, pc ∉ jumps.map Prod.fst → linked[pc]? = code[pc]?) ∧
      ∀ jump ∈ jumps, ∃ address, draft.resolve jump.2 = .ok address ∧
        linked[jump.1]? = code[jump.1]?.map fun instruction =>
          { instruction with jump := Int64.ofNat address - Int64.ofNat jump.1 - 1 } := by
  induction jumps generalizing code with
  | nil =>
    cases links
    exact ⟨fun _ _ => rfl, List.forall_mem_nil _⟩
  | cons jump rest ih =>
    obtain ⟨pc, use⟩ := jump
    rw [List.map_cons, List.nodup_cons] at apart
    obtain ⟨target, resolved, links⟩ := bind_eq_ok_iff.mp links
    obtain ⟨others, later⟩ := ih links apart.2
    refine ⟨fun address absent => ?_, List.forall_mem_cons.mpr ⟨⟨target, resolved, ?_⟩, ?_⟩⟩
    · rw [List.map_cons, List.mem_cons, not_or] at absent
      rw [others address absent.2, Array.getElem?_modify, if_neg (Ne.symm absent.1)]
    · rw [others pc apart.1, Array.getElem?_modify, if_pos rfl]
    · intro jump member
      obtain ⟨address, found, isLinked⟩ := later jump member
      refine ⟨address, found, isLinked.trans ?_⟩
      have other : pc ≠ jump.1 := by
        intro same
        exact apart.1 (List.mem_map.mpr ⟨jump, member, same.symm⟩)
      rw [Array.getElem?_modify, if_neg other]

/-- `linkFunctions` gives each function the address of its label. -/
theorem linkFunctions_getElem? {items : Array Declaration} {index : ℕ} {declaration : Declaration}
    {use : LabelUse} (links : draft.linkFunctions = .ok items)
    (found : draft.functions[index]? = some (declaration, use)) :
    ∃ address, draft.resolve use = .ok address ∧
      items[index]? = some { declaration with entry := Int64.ofNat address } := by
  have linked := linkFunctions_eq_ok_iff.mp links
  rw [← Array.getElem?_toList] at found ⊢
  obtain ⟨inside, isFunction⟩ := List.getElem?_eq_some_iff.mp found
  have bound : index < items.toList.length := linked.length_eq ▸ inside
  obtain ⟨address, resolved, isItem⟩ := linked.get inside bound
  rw [show draft.functions.toList.get ⟨index, inside⟩ = _ from isFunction] at resolved isItem
  exact ⟨address, resolved, List.getElem?_eq_some_iff.mpr ⟨bound, isItem.symm⟩⟩

end Draft

/-- The lines of a source. -/
def linesOf (source : Text) : List (List Token) := tokenLinesFrom [] (tokens source)

variable {source : Text} {program : Program} {pc : ℕ} {line : List Token} {label : Text}

/-- A source that is accepted is read to a draft that is `Faithful` to its lines, and linked. -/
theorem exists_faithful_of_assemble (assembles : assemble source = .ok program) :
    ∃ draft : Draft, draft.Faithful (linesOf source) ∧ draft.Sound ∧
      draft.linkJumps draft.jumps draft.code = .ok program.code ∧
      draft.linkFunctions = .ok program.items := by
  obtain ⟨draft, read, sound, links⟩ := exists_draft_of_assemble assembles
  obtain ⟨_, _, jumps, functions, _⟩ := Draft.link_eq_ok_iff.mp links
  exact ⟨draft, faithful_of_readLines Draft.faithful_nil read, sound, jumps, functions⟩

/-- A jump that names a label leads to its address. -/
theorem target_of_assemble {opcode : Opcode} (assembles : assemble source = .ok program)
    (found : (codeLines (linesOf source))[pc]? = some line)
    (isOpcode : opcodeOf? line = some opcode) (isJump : opcode.isJump = true)
    (names : targetLabel? (operandOf line) = some label) :
    ∃ address instruction, addressOf? (linesOf source) label = some address ∧
      program.code[pc]? = some instruction ∧ instruction.opcode = opcode ∧
      ProgramOf.jumpTarget pc instruction = Int64.ofNat address := by
  obtain ⟨draft, faithful, _, jumps, _⟩ := exists_faithful_of_assemble assembles
  have represents := faithful.lines pc line found
  obtain ⟨instruction, present, same, _⟩ := represents.instruction
  cases isOpcode.symm.trans same
  obtain ⟨use, member, rfl⟩ := represents.target _ label isOpcode isJump names
  obtain ⟨address, resolved, linked⟩ :=
    (Draft.linkJumps_getElem? jumps faithful.apart).2 (pc, use) member
  rw [present, Option.map_some] at linked
  refine ⟨address, _, ?_, linked, rfl, ?_⟩
  · rw [← faithful.labels]
    exact Draft.address?_of_resolve resolved
  · unfold ProgramOf.jumpTarget
    dsimp only
    grind

/-- A function that is declared with a label has its address as the entry. -/
theorem entry_of_assemble (assembles : assemble source = .ok program)
    (found : (codeLines (linesOf source))[pc]? = some line)
    (isPush : opcodeOf? line = some .push) (names : entryLabel? (operandOf line) = some label) :
    ∃ address instruction index declaration,
      addressOf? (linesOf source) label = some address ∧
      program.code[pc]? = some instruction ∧ instruction.opcode = .push ∧
      instruction.datum = .ofObject (some index) ∧
      program.items[index]? = some declaration ∧ declaration.entry = Int64.ofNat address := by
  obtain ⟨draft, faithful, sound, jumps, functions⟩ := exists_faithful_of_assemble assembles
  obtain ⟨instruction, present, same, enters⟩ := (faithful.lines pc line found).instruction
  have opcode : instruction.opcode = .push := (Option.some.inj (isPush.symm.trans same)).symm
  obtain ⟨index, declaration, use, datum, isFunction, rfl⟩ := enters label opcode names
  obtain ⟨address, resolved, item⟩ := Draft.linkFunctions_getElem? functions isFunction
  have noJump : pc ∉ draft.jumps.map Prod.fst := by
    intro member
    obtain ⟨jump, isJump, rfl⟩ := List.mem_map.mp member
    obtain ⟨other, there, isClass⟩ := sound.jumps jump isJump
    cases present.symm.trans there
    rw [opcode] at isClass
    cases isClass
  refine ⟨address, instruction, index, _, ?_, ?_, opcode, datum, item, rfl⟩
  · rw [← faithful.labels]
    exact Draft.address?_of_resolve resolved
  · rw [(Draft.linkJumps_getElem? jumps faithful.apart).1 pc noJump]
    exact present

end Assembly

end ScriptEngine
