/-
This file is about reading the phrases of the grammar. What matters of a draft for what is still to
come is its outline: labels and names, without instructions and without places. A reader accepts
the words of every phrase of its kind that the outline admits, and whatever it accepts are the
words of such a phrase; both times the phrase alone says what becomes of the outline. The phrase
says as well where in the code it jumps to a label or pushes a function.
-/

import Mathlib
import ScriptEngine.Proofs.Assembly.Grammar
import ScriptEngine.Proofs.Assembly.Labels
import ScriptEngine.Proofs.Assembly.Reassembling

namespace ScriptEngine.Assembly

open Text (IsInteger)

/-! ### Outlines -/

/-- What a draft holds of labels and names. A function without a name has the empty one. -/
structure Outline where
  size : ℕ := 0
  labels : List (Text × ℕ) := []
  targets : List Text := []
  functions : List (Text × Text) := []
  entry : Option Text := none
  stop : Option Text := none

/-- The outline of a draft. -/
def Draft.outline (draft : Draft) : Outline where
  size := draft.code.size
  labels := draft.labels
  targets := draft.jumps.map (·.2.label)
  functions := draft.functions.toList.map fun function => (function.1.name, function.2.label)
  entry := draft.entry.map LabelUse.label
  stop := draft.stop.map LabelUse.label

namespace Outline

variable (outline : Outline)

/-- The names of the functions that have been declared. -/
def names : List Text := outline.functions.map Prod.fst

/-- A function is declared if there is none of its name, and used if there is one. -/
def Admits : FunctionPhrase → Prop
  | .reference name => name.val ∈ outline.names
  | .declaration name _ _ _ => ∀ other ∈ name, other.val ∉ outline.names

/-- An outline with a function that is pushed. -/
def function : FunctionPhrase → Outline
  | .reference _ => outline
  | .declaration name _ label _ =>
    { outline with functions := outline.functions ++ [((name.map Subtype.val).getD [], label)] }

/-- An outline with what an operand uses. -/
def operand {operand : Opcode.OperandClass} : OperandPhrase operand → Outline
  | .target label => { outline with targets := outline.targets ++ [label] }
  | .function phrase => outline.function phrase
  | _ => outline

/-- An outline with a statement. -/
def statement : StatementPhrase → Outline
  | .entry label => { outline with entry := some label }
  | .stop label => { outline with stop := some label }
  | .instruction _ _ operand => { outline.operand operand with size := outline.size + 1 }

/-- An outline with the label of a line. -/
def label : Option Text → Outline
  | some label => { outline with labels := outline.labels ++ [(label, outline.size)] }
  | none => outline

/-- An outline with a line. -/
def line (line : LinePhrase) : Outline :=
  (line.statement.map (outline.label line.label).statement).getD (outline.label line.label)

end Outline

theorem Draft.address?_eq_none_iff {draft : Draft} {label : Text} :
    draft.address? label = none ↔ label ∉ draft.outline.labels.map Prod.fst := by
  unfold Draft.address? Draft.outline
  rw [List.lookup_eq_none_iff]
  simp only [bne_iff_ne, List.mem_map, not_exists, not_and]
  exact forall₂_congr fun _ _ => ne_comm

theorem Draft.function?_eq_none_iff {draft : Draft} {name : Text} :
    draft.function? name = none ↔ name ∉ draft.outline.names := by
  unfold Draft.function? Outline.names Draft.outline
  rw [Array.findIdx?_eq_none_iff, List.map_map]
  simp [eq_comm]

theorem Draft.exists_function?_iff {draft : Draft} {name : Text} :
    (∃ index, draft.function? name = some index) ↔ name ∈ draft.outline.names := by
  rw [← Option.ne_none_iff_exists', ne_eq, function?_eq_none_iff, not_not]

theorem Draft.length_names (draft : Draft) :
    draft.outline.names.length = draft.functions.size := by
  unfold Outline.names Draft.outline
  rw [List.length_map, List.length_map, Array.length_toList]

/-- Functions have the numbers of their names. -/
theorem Draft.findIdx?_names (draft : Draft) (name : Text) :
    draft.outline.names.findIdx? (· = name) = draft.function? name := by
  unfold Outline.names Draft.outline Draft.function?
  rw [List.map_map, List.findIdx?_map, ← List.findIdx?_toArray, Array.toArray_toList]
  rfl

namespace Outline

/-- A line can be added: its label is new, and the outline `Admits` the function it pushes. -/
structure Allows (outline : Outline) (line : LinePhrase) : Prop where
  label : ∀ label ∈ line.label, label ∉ outline.labels.map Prod.fst
  function : ∀ phrase ∈ line.function?, outline.Admits phrase

theorem size_operand (outline : Outline) {operand : Opcode.OperandClass}
    (phrase : OperandPhrase operand) : (outline.operand phrase).size = outline.size := by
  cases phrase with
  | function phrase => cases phrase <;> rfl
  | _ => rfl

end Outline

/-! ### What is at an address -/

/-- The number of a function that is pushed, by the names of those so far: a declared one is the
next. -/
def FunctionPhrase.number? (names : List Text) : FunctionPhrase → Option ℕ
  | reference name => names.findIdx? (· = name.val)
  | declaration _ _ _ _ => some names.length

/-- The opcode of an instruction. -/
def StatementPhrase.opcode? : StatementPhrase → Option Opcode
  | instruction opcode _ _ => some opcode
  | _ => none

/-- The opcode of the instruction on a line. -/
def LinePhrase.opcode? (line : LinePhrase) : Option Opcode :=
  line.statement.bind StatementPhrase.opcode?

namespace Draft

/-- The jumps of a draft, with the labels that are their targets. -/
def targets (draft : Draft) : List (ℕ × Text) :=
  draft.jumps.map fun jump => (jump.1, jump.2.label)

/-- The instructions of a draft, with the functions that they push. -/
def pushes (draft : Draft) : List (Opcode × Option ℕ) :=
  draft.code.toList.map fun instruction => (instruction.opcode, instruction.function?)

/-- A draft becomes another one by an instruction, if there is one, whose operand may be a target or
a function, with the number that `FunctionPhrase.number?` gives it. -/
structure Places (draft : Draft) (opcode : Option Opcode) (target : Option Text)
    (function : Option FunctionPhrase) (after : Draft) : Prop where
  targets : after.targets = draft.targets ++ target.toList.map (draft.code.size, ·)
  pushes : after.pushes = draft.pushes ++
    opcode.toList.map (·, function.bind (FunctionPhrase.number? draft.outline.names))

variable {draft : Draft}

/-- What is no instruction `Places` nothing. -/
theorem places_none {after : Draft} (code : after.code = draft.code)
    (jumps : after.jumps = draft.jumps) : draft.Places none none none after where
  targets := by
    rw [targets, jumps]
    exact (List.append_nil _).symm
  pushes := by
    rw [pushes, code]
    exact (List.append_nil _).symm

/-- An instruction is placed behind all others. -/
theorem places_addInstruction {middle : Draft} (instruction : Instruction ℕ) {target : Option Text}
    {function : Option FunctionPhrase} (code : middle.code = draft.code)
    (jumps : middle.targets = draft.targets ++ target.toList.map (draft.code.size, ·))
    (pushed : instruction.function? =
      function.bind (FunctionPhrase.number? draft.outline.names)) :
    draft.Places (some instruction.opcode) target function
      (middle.addInstruction instruction) where
  targets := jumps
  pushes := by
    rw [pushes, addInstruction, Array.toList_push, List.map_append, code, ← pushed]
    rfl

theorem places_jump (draft : Draft) (opcode : Opcode) (use : LabelUse) :
    draft.Places opcode (some use.label) none
      (addInstruction { draft with jumps := draft.jumps ++ [(draft.code.size, use)] }
        { opcode }) := by
  have added : targets { draft with jumps := draft.jumps ++ [(draft.code.size, use)] } =
      draft.targets ++ [(draft.code.size, use.label)] := List.map_append
  exact places_addInstruction { opcode } rfl added rfl

theorem places_plain {instruction : Instruction ℕ} (plain : instruction.function? = none) :
    draft.Places (some instruction.opcode) none none (draft.addInstruction instruction) :=
  places_addInstruction instruction rfl (List.append_nil _).symm plain

end Draft

/-! ### Words by themselves -/

theorem Opcode.ofName?_name {opcode : Opcode} (valid : opcode ∈ Opcode.valid) :
    Opcode.ofName? opcode.name = some opcode := by
  have names : ∀ opcode ∈ Opcode.valid, Opcode.ofName? opcode.name = some opcode := by decide
  exact names opcode valid

theorem exists_ofName?_iff {word : Text} :
    (∃ kind, ConstructKind.ofName? word = some kind) ↔ word ∈ constructWords := by
  have words : constructWords = ConstructKind.known.map ConstructKind.name := by decide
  rw [words, List.mem_map, ConstructKind.ofName?, ← Option.isSome_iff_exists, List.find?_isSome]
  simp

theorem exists_wordDatum?_iff {word : Text} :
    (∃ datum, wordDatum? word = some datum) ↔ word ∈ literalWords := by
  unfold literalWords
  simp only [List.mem_cons, List.not_mem_nil, or_false]
  constructor
  · rintro ⟨datum, found⟩
    by_contra unknown
    simp only [not_or] at unknown
    simp [wordDatum?, unknown] at found
  · rintro (rfl | rfl | rfl | rfl | rfl | rfl | rfl) <;> exact ⟨_, rfl⟩

theorem exists_literalNumber?_iff {numeral : Text} :
    (∃ value, literalNumber? numeral = some value) ↔ IsDouble numeral := by
  unfold literalNumber? IsDouble
  cases Number.Decimal.read? numeral with
  | none => simp
  | some decimal => simp

theorem word_of_is {token : Token} {kind : TokenKind} {text : Text}
    (is : token.is kind text = true) : token.word = (kind, text) := by
  unfold Token.is at is
  simp only [Bool.and_eq_true, decide_eq_true_eq] at is
  exact Prod.ext is.1 is.2

/-! ### Changes to the outline -/

theorem Draft.outline_addFunction (draft : Draft) (function : Declaration × LabelUse) :
    (draft.addFunction function).1.outline = { draft.outline with
      functions := draft.outline.functions ++ [(function.1.name, function.2.label)] } := by
  unfold Draft.outline Draft.addFunction
  rw [Array.toList_push, List.map_append]
  rfl

theorem Draft.outline_addInstruction (draft : Draft) (instruction : Instruction ℕ) :
    (draft.addInstruction instruction).outline =
      { draft.outline with size := draft.outline.size + 1 } := by
  unfold Draft.outline Draft.addInstruction
  rw [Array.size_push]

theorem Draft.outline_addJump (draft : Draft) (pc : ℕ) (use : LabelUse) :
    Draft.outline { draft with jumps := draft.jumps ++ [(pc, use)] } =
      { draft.outline with targets := draft.outline.targets ++ [use.label] } := by
  unfold Draft.outline
  rw [List.map_append]
  rfl

/-! ### What is accepted -/

theorem parametersWords_eq (params : List Text) :
    parametersWords params = (parameterScraps params).filterMap Scrap.word? := by
  unfold parametersWords
  cases params with
  | nil => rfl
  | cons first others =>
    rw [words_parameterScraps]
    induction others generalizing first with
    | nil => rfl
    | cons second others ih =>
      rw [List.map_cons, List.map_cons, List.intersperse_cons_cons, ← List.map_cons, ih]
      rfl

namespace Reads

variable {draft : Draft} {last : Word} {rest : List Word}

theorem construct {constructs : Option { word // word ∈ constructWords }}
    (isEnd : last.1.IsEnd) :
    Reads construct (constructs.toList.map (.identifier, ·.val) ++ last :: rest) (last :: rest)
      fun _ => True := by
  cases constructs with
  | none =>
    refine peek.bind fun token isWord => ?_
    rw [if_neg (by rw [← isWord] at isEnd; exact isEnd.ne_identifier)]
    exact .pure trivial
  | some word =>
    obtain ⟨kind, isKind⟩ := exists_ofName?_iff.mpr word.property
    refine peek.bind fun token isWord => ?_
    obtain ⟨identifier, text⟩ := Prod.mk.inj isWord
    rw [if_pos identifier]
    refine skip.bind fun _ _ => ?_
    rw [text, isKind]
    exact .pure trivial

theorem declaration {name : Text} {params : List Text} {label : Text}
    {constructs : Option { word // word ∈ constructWords }} (isEnd : last.1.IsEnd) :
    Reads (declaration name)
      (FunctionPhrase.declarationWords params label constructs ++ last :: rest) (last :: rest)
      fun function => function.1.name = name ∧ function.2.label = label := by
  unfold FunctionPhrase.declarationWords
  rw [List.cons_append, List.append_assoc, parametersWords_eq]
  refine symbol.bind fun _ _ => (reads_parameters params).bind fun names _ => ?_
  refine symbol.bind fun _ _ => identifier.bind fun token isLabel => ?_
  exact (construct isEnd).bind fun kind _ => .pure ⟨rfl, isLabel⟩

theorem function {phrase : FunctionPhrase} (admits : draft.outline.Admits phrase)
    (isEnd : last.1.IsEnd) :
    Reads (function draft) (phrase.words ++ last :: rest) (last :: rest)
      fun result => result.1.outline = draft.outline.function phrase ∧
        result.1.code = draft.code ∧ result.1.jumps = draft.jumps ∧
        phrase.number? draft.outline.names = some result.2 := by
  have adds {name : Option Name} {params : List Text} {label : Text}
      {constructs : Option { word // word ∈ constructWords }}
      (added : Declaration × LabelUse)
      (isAdded : added.1.name = (name.map Subtype.val).getD [] ∧ added.2.label = label) :
      (draft.addFunction added).1.outline =
        draft.outline.function (.declaration name params label constructs) ∧
      (draft.addFunction added).1.code = draft.code ∧
      (draft.addFunction added).1.jumps = draft.jumps ∧
      (FunctionPhrase.declaration name params label constructs).number? draft.outline.names =
        some (draft.addFunction added).2 := by
    refine ⟨?_, rfl, rfl, ?_⟩
    · rw [Draft.outline_addFunction, isAdded.1, isAdded.2]
      rfl
    · rw [FunctionPhrase.number?, Draft.length_names]
      rfl
  cases phrase with
  | reference name =>
    obtain ⟨index, found⟩ := Draft.exists_function?_iff.mpr admits
    refine peek.bind fun token isWord => ?_
    obtain ⟨kind, text⟩ := Prod.mk.inj isWord
    rw [if_pos kind]
    refine skip.bind fun _ _ => peek.bind fun next isNext => ?_
    have noBracket : ¬ next.is .symbol "(" = true := by
      intro bracket
      rw [← isNext, word_of_is bracket] at isEnd
      rcases isEnd with same | same <;> cases same
    rw [if_neg noBracket, text, found]
    exact .pure ⟨rfl, rfl, rfl, (Draft.findIdx?_names draft _).trans found⟩
  | declaration name params label constructs =>
    cases name with
    | none =>
      refine peek.bind fun token isWord => ?_
      obtain ⟨kind, -⟩ := Prod.mk.inj isWord
      rw [if_neg (by rw [kind]; decide)]
      exact (declaration isEnd).bind fun added isAdded => .pure (adds added isAdded)
    | some name =>
      have fresh : draft.function? name.val = none :=
        Draft.function?_eq_none_iff.mpr (admits name rfl)
      refine peek.bind fun token isWord => ?_
      obtain ⟨kind, text⟩ := Prod.mk.inj isWord
      rw [if_pos kind]
      refine skip.bind fun _ _ => peek.bind fun next isNext => ?_
      obtain ⟨nextKind, nextText⟩ := Prod.mk.inj isNext
      rw [if_pos (by simp [Token.is, nextKind, nextText]), text, fresh]
      exact (declaration isEnd).bind fun added isAdded => .pure (adds added isAdded)

theorem word {text : Text} {datum : Datum ℕ} (known : text ∈ literalWords)
    (isDatum : wordDatum? text = some datum) :
    Reads (literal draft) ((.identifier, text) :: rest) rest (· = (draft, datum)) := by
  refine reads_word ?_ isDatum
  rintro rfl
  revert known
  decide

theorem literal {operand : OperandPhrase .literal}
    (admits : ∀ phrase ∈ operand.function?, draft.outline.Admits phrase)
    (isEnd : last.1.IsEnd) :
    Reads (literal draft) (operand.words ++ last :: rest) (last :: rest)
      fun result => result.1.outline = draft.outline.operand operand ∧
        result.1.code = draft.code ∧ result.1.jumps = draft.jumps ∧
        ∀ opcode, Instruction.function? { opcode, datum := result.2 } =
          operand.function?.bind (FunctionPhrase.number? draft.outline.names) := by
  cases operand with
  | number numeral isDouble =>
    obtain ⟨value, isValue⟩ := exists_literalNumber?_iff.mpr isDouble
    refine (next (by decide)).bind fun token ⟨kind, text⟩ => ?_
    rw [kind, text, isValue]
    exact .pure ⟨rfl, rfl, rfl, fun _ => rfl⟩
  | quoted value =>
    refine (next (by decide)).bind fun token ⟨kind, text⟩ => ?_
    rw [kind, text]
    exact .pure ⟨rfl, rfl, rfl, fun _ => rfl⟩
  | word text known =>
    obtain ⟨datum, isDatum⟩ := exists_wordDatum?_iff.mpr known
    refine (word known isDatum).mono ?_
    rintro _ rfl
    refine ⟨rfl, rfl, rfl, fun _ => ?_⟩
    unfold Instruction.function?
    dsimp only
    rw [(Yields.wordDatum isDatum).2, ite_self]
    rfl
  | function phrase =>
    refine (next (by decide)).bind fun token ⟨kind, text⟩ => ?_
    rw [kind]
    dsimp only
    rw [if_pos text]
    refine (function (admits phrase rfl) isEnd).bind fun (after, index) read => .pure ?_
    obtain ⟨same, code, jumps, isNumber⟩ := read
    exact ⟨same, code, jumps, fun _ => isNumber.symm⟩

theorem countDatum {numeral : Text} (isCount : ∃ count, IsInteger numeral count ∧ 0 ≤ count) :
    Reads countDatum ((.number, numeral) :: rest) rest
      fun datum => ∃ value, datum = .ofNumber value := by
  obtain ⟨count, read, natural⟩ := Text.exists_int64?_iff.mpr isCount
  refine number.bind fun token text => ?_
  rw [text, read]
  dsimp only
  rw [if_neg (by rw [Int64.lt_iff_toInt_lt]; exact not_lt.mpr natural)]
  exact .pure ⟨_, rfl⟩

theorem offset {numeral : Text} (isOffset : ∃ offset, IsInteger numeral offset) :
    Reads jumpTarget ((.number, numeral) :: rest) rest
      fun target => ∃ offset, target = .inr offset := by
  have integer : ∃ offset, IsInteger numeral offset ∧ True := by simpa using isOffset
  obtain ⟨offset, read, -⟩ := Text.exists_int64?_iff.mpr integer
  refine (next (by decide)).bind fun token ⟨kind, text⟩ => ?_
  rw [if_neg (by simp [Token.is, kind]), if_pos kind, text, read]
  exact .pure ⟨offset, rfl⟩

theorem instruction {opcode : Opcode} {operand : OperandPhrase opcode.operandClass}
    (admits : ∀ phrase ∈ operand.function?, draft.outline.Admits phrase)
    (isEnd : last.1.IsEnd) :
    Reads (instruction draft opcode) (operand.words ++ last :: rest) (last :: rest)
      fun after => after.outline =
          { draft.outline.operand operand with size := draft.outline.size + 1 } ∧
        draft.Places opcode operand.target? operand.function? after := by
  have plain {instruction : Instruction ℕ} (noFunction : instruction.function? = none) :
      (draft.addInstruction instruction).outline =
          { draft.outline with size := draft.outline.size + 1 } ∧
        draft.Places instruction.opcode none none (draft.addInstruction instruction) :=
    ⟨draft.outline_addInstruction _, Draft.places_plain noFunction⟩
  unfold Assembly.instruction
  generalize opcode.operandClass = kind at operand
  cases operand with
  | none => exact .pure (plain rfl)
  | name text =>
    refine (reads_name (.inl ⟨rfl, rfl⟩)).bind ?_
    rintro _ rfl
    exact .pure (plain rfl)
  | quotedName text =>
    refine (reads_name (.inr ⟨rfl, rfl⟩)).bind ?_
    rintro _ rfl
    exact .pure (plain rfl)
  | count numeral isCount =>
    refine (countDatum isCount).bind ?_
    rintro _ ⟨value, rfl⟩
    exact .pure (plain rfl)
  | target label =>
    refine reads_label.bind fun target ⟨use, isUse, isLabel⟩ => ?_
    rw [isUse, ← isLabel]
    refine .pure ⟨?_, draft.places_jump opcode use⟩
    rw [Draft.outline_addInstruction, Draft.outline_addJump]
    rfl
  | offset numeral isOffset =>
    refine (offset isOffset).bind fun target ⟨offset, isTarget⟩ => ?_
    rw [isTarget]
    exact .pure (plain rfl)
  | number | quoted | word | function =>
    refine (literal admits isEnd).bind fun (after, datum) read => .pure ?_
    obtain ⟨same, code, jumps, pushed⟩ := read
    refine ⟨?_, Draft.places_addInstruction { opcode, datum } code ?_ (pushed opcode)⟩
    · rw [Draft.outline_addInstruction, same, Outline.size_operand]
    · rw [Draft.targets, jumps]
      exact (List.append_nil _).symm

theorem directive {token : Token} {label : Text} {after : Outline}
    (isEntry : token.text = ".entry" ∧ after = { draft.outline with entry := some label } ∨
      token.text = ".end" ∧ after = { draft.outline with stop := some label }) :
    Reads (directive draft token) ((.identifier, label) :: rest) rest
      fun found => found.outline = after ∧ draft.Places none none none found := by
  refine identifier.bind fun name isLabel => ?_
  rcases isEntry with ⟨isEntry, rfl⟩ | ⟨isStop, rfl⟩
  · dsimp only
    rw [if_pos isEntry, ← isLabel]
    exact .pure ⟨rfl, Draft.places_none rfl rfl⟩
  · dsimp only
    rw [isStop, if_neg (by decide), if_pos rfl, ← isLabel]
    exact .pure ⟨rfl, Draft.places_none rfl rfl⟩

theorem statement {phrase : StatementPhrase} {token : Token} (isFirst : token.text = phrase.keyword)
    (admits : ∀ function ∈ phrase.function?, draft.outline.Admits function)
    (isEnd : last.1.IsEnd) :
    Reads (statement draft token) (phrase.operandWords ++ last :: rest) rest
      fun after => after.outline = draft.outline.statement phrase ∧
        draft.Places phrase.opcode? phrase.target? phrase.function? after := by
  have done {after : Draft} {Good : Draft → Prop} (good : Good after) :
      Reads (do Assembly.endOfLine; return after) (last :: rest) rest Good :=
    (endOfLine isEnd).bind fun _ _ => .pure good
  unfold Assembly.statement
  dsimp only
  cases phrase with
  | entry label =>
    rw [if_pos (by rw [isFirst]; rfl)]
    exact (directive (.inl ⟨isFirst, rfl⟩)).bind fun after read => done read
  | stop label =>
    rw [if_pos (by rw [isFirst]; rfl)]
    exact (directive (.inr ⟨isFirst, rfl⟩)).bind fun after read => done read
  | instruction opcode valid operand =>
    have isOpcode := Opcode.ofName?_name valid
    have noDot : ¬ opcode.name.head? = some 46 := fun dot => by
      rw [ofName?_of_dot dot] at isOpcode
      cases isOpcode
    rw [show token.text = opcode.name from isFirst, if_neg noDot, isOpcode]
    exact (instruction admits isEnd).bind fun after read => done read

/-- No colon follows the first word of a statement. -/
theorem exists_behind_keyword (phrase : StatementPhrase) (isEnd : last.1.IsEnd) :
    ∃ word words, phrase.operandWords ++ last :: rest = word :: words ∧
      word ≠ (.symbol, Text.ofString ":") := by
  have noColon : last ≠ (.symbol, Text.ofString ":") := by
    rintro rfl
    rcases isEnd with same | same <;> cases same
  cases phrase with
  | entry label | stop label => exact ⟨_, _, rfl, by simp⟩
  | instruction opcode valid operand =>
    dsimp only [StatementPhrase.operandWords]
    generalize opcode.operandClass = kind at operand
    cases operand with
    | none => exact ⟨_, _, rfl, noColon⟩
    | target label => exact ⟨_, _, rfl, by decide⟩
    | _ => exact ⟨_, _, rfl, by simp⟩

theorem line {phrase : LinePhrase} (allows : draft.outline.Allows phrase)
    (isEnd : last.1.IsEnd) :
    Reads (line draft) (phrase.words ++ last :: rest) rest
      fun after => after.outline = draft.outline.line phrase ∧
        draft.Places phrase.opcode? phrase.target? phrase.function? after := by
  obtain ⟨label, statement⟩ := phrase
  unfold LinePhrase.words
  cases label with
  | none =>
    cases statement with
    | none =>
      refine (firstWord?_end isEnd).bind fun found none => ?_
      rw [none]
      exact .pure ⟨rfl, Draft.places_none rfl rfl⟩
    | some phrase =>
      obtain ⟨word, words, isWords, notLabel⟩ := exists_behind_keyword phrase isEnd
      show Reads _ ((.identifier, phrase.keyword) :: (phrase.operandWords ++ last :: rest)) _ _
      rw [isWords]
      refine reads_statement notLabel fun token isFirst => ?_
      rw [← isWords]
      exact Reads.statement isFirst allows.function isEnd
  | some label =>
    have fresh : draft.address? label = none :=
      Draft.address?_eq_none_iff.mpr (allows.label label rfl)
    refine firstWord?_identifier.bind ?_
    rintro _ ⟨token, rfl, isLabel⟩
    refine peek.bind fun sign isSign => ?_
    obtain ⟨kind, text⟩ := Prod.mk.inj isSign
    rw [if_pos (by simp [Token.is, kind, text])]
    refine skip.bind fun _ _ => ?_
    dsimp only
    rw [isLabel, fresh, if_neg (by simp)]
    cases statement with
    | none =>
      refine (firstWord?_end isEnd).bind fun found none => ?_
      rw [none]
      exact .pure ⟨rfl, Draft.places_none rfl rfl⟩
    | some phrase =>
      refine firstWord?_identifier.bind ?_
      rintro _ ⟨first, rfl, isFirst⟩
      have admits : ∀ function ∈ phrase.function?, Outline.Admits (Draft.outline
          { draft with labels := draft.labels ++ [(label, draft.code.size)] }) function :=
        allows.function
      exact (Reads.statement isFirst admits isEnd).mono fun after read =>
        ⟨read.1, read.2.targets, read.2.pushes⟩

end Reads

/-! ### What accepted words are -/

/-- Tokens start with the words of an operand that an outline admits, and this comes of them: the
outline is the one with the `operand`. -/
def Operates (tokens : List Token) (operand : Opcode.OperandClass) (outline after : Outline)
    (remaining : List Token) : Prop :=
  ∃ phrase : OperandPhrase operand, tokens.map Token.word =
      phrase.words ++ remaining.map Token.word ∧
    (∀ function ∈ phrase.function?, outline.Admits function) ∧ after = outline.operand phrase

/-- An operand that is no function is admitted everywhere, so that it `Operates`. -/
theorem operates_plain {tokens remaining : List Token} {operand : Opcode.OperandClass}
    {outline : Outline} (phrase : OperandPhrase operand)
    (isWords : tokens.map Token.word = phrase.words ++ remaining.map Token.word)
    (plain : phrase.function? = none) :
    Operates tokens operand outline (outline.operand phrase) remaining := by
  refine ⟨phrase, isWords, fun function isFunction => ?_, rfl⟩
  rw [plain] at isFunction
  cases isFunction

theorem operates_word {token : Token} {rest : List Token} {operand : Opcode.OperandClass}
    {outline : Outline} (phrase : OperandPhrase operand) (isWord : phrase.words = [token.word])
    (plain : phrase.function? = none) :
    Operates (token :: rest) operand outline (outline.operand phrase) rest :=
  operates_plain phrase (by rw [isWord]; rfl) plain

theorem word_of_kind {token : Token} {kind : TokenKind} (isKind : token.kind = kind) :
    token.word = (kind, token.text) :=
  Prod.ext isKind rfl

/-- Behind the first parameter every one has a comma in front of it, up to the bracket. -/
theorem words_of_parametersFrom : ∀ (tokens : List Token) {names found : List Text}
    {remaining : List Token}, names ≠ [] → parametersFrom tokens names = .ok (found, remaining) →
      remaining ≠ [] → ∃ params, tokens.map Token.word =
        parameterWords params ++ (.symbol, Text.ofString ")") :: remaining.map Token.word
  | [], names, found, remaining, _, gives, more => by
    cases gives
    exact absurd rfl more
  | token :: rest, names, found, remaining, filled, gives, more => by
    unfold parametersFrom at gives
    dsimp only at gives
    split at gives
    · cases gives
    split at gives
    · case isTrue closing =>
      cases gives
      exact ⟨[], congrArg (· :: _) (word_of_is closing)⟩
    rw [if_neg (by simpa using filled)] at gives
    split at gives
    · case isTrue comma =>
      cases rest with
      | nil =>
        cases gives
        exact absurd rfl more
      | cons name behind =>
        dsimp only at gives
        split at gives
        · cases gives
        split at gives
        · cases gives
        · case isFalse kind =>
          obtain ⟨params, isWords⟩ := words_of_parametersFrom behind (by simp) gives more
          refine ⟨name.text :: params, ?_⟩
          rw [List.map_cons, List.map_cons, isWords, word_of_is comma,
            word_of_kind (not_not.mp kind)]
          rfl
    · cases gives
termination_by tokens => tokens.length

namespace Gives

variable {draft : Draft} {tokens : List Token}

theorem parameters :
    Gives parameters tokens fun _ remaining => remaining ≠ [] → ∃ params, tokens.map Token.word =
      parametersWords params ++ (.symbol, Text.ofString ")") :: remaining.map Token.word := by
  intro names remaining gives more
  rw [run_parameters] at gives
  cases tokens with
  | nil =>
    cases gives
    exact absurd rfl more
  | cons token rest =>
    unfold parametersFrom at gives
    dsimp only at gives
    split at gives
    · cases gives
    split at gives
    · case isTrue closing =>
      cases gives
      exact ⟨[], congrArg (· :: _) (word_of_is closing)⟩
    rw [if_pos List.isEmpty_nil] at gives
    split at gives
    · cases gives
    · case isFalse kind =>
      obtain ⟨params, isWords⟩ := words_of_parametersFrom rest (by simp) gives more
      refine ⟨token.text :: params, ?_⟩
      rw [parametersWords_eq, words_parameterScraps, List.map_cons, isWords,
        word_of_kind (not_not.mp kind)]
      rfl

theorem construct :
    Gives construct tokens fun _ remaining =>
      ∃ constructs : Option { word // word ∈ constructWords }, tokens.map Token.word =
        constructs.toList.map (.identifier, ·.val) ++ remaining.map Token.word := by
  refine peek ?_
  split
  · case isTrue kind =>
    obtain ⟨token, rest, rfl, isWord⟩ := exists_cons_of_kind kind (by decide)
    refine skip ?_
    split
    · case h_1 found isKnown =>
      have known : token.text ∈ constructWords := exists_ofName?_iff.mp ⟨found, isKnown⟩
      refine pure ⟨some ⟨token.text, known⟩, ?_⟩
      rw [List.map_cons, word_of_kind isWord]
      rfl
    · exact fail
  · exact pure ⟨none, rfl⟩

theorem declarationWords (name : Text) :
    Gives (Assembly.declaration name) tokens fun function remaining =>
      ∃ params constructs, tokens.map Token.word =
        FunctionPhrase.declarationWords params function.2.label constructs ++
          remaining.map Token.word ∧ function.1.name = name := by
  refine symbol fun bracket rest isTokens isBracket => ?_
  refine parameters.bind fun names behind closed => symbol fun sign more isBehind isSign => ?_
  refine identifier fun label others isMore isLabel => ?_
  refine construct.bind fun kind remaining ⟨constructs, isOthers⟩ => pure ?_
  obtain ⟨params, isRest⟩ := closed (by rw [isBehind]; exact List.cons_ne_nil _ _)
  refine ⟨params, constructs, ?_, rfl⟩
  rw [isTokens, List.map_cons, isRest, isBehind, List.map_cons, isMore, List.map_cons, isOthers,
    word_of_is isBracket, word_of_is isSign, word_of_kind isLabel]
  simp [FunctionPhrase.declarationWords, Token.labelUse]

theorem functionPhrase (filled : ∀ token ∈ tokens, token.kind = .identifier → token.text ≠ []) :
    Gives (Assembly.function draft) tokens fun result remaining => ∃ phrase : FunctionPhrase,
      tokens.map Token.word = phrase.words ++ remaining.map Token.word ∧
      draft.outline.Admits phrase ∧ result.1.outline = draft.outline.function phrase := by
  refine peek ?_
  split
  · case isTrue kind =>
    obtain ⟨token, rest, rfl, isWord⟩ := exists_cons_of_kind kind (by decide)
    let name : Name := ⟨token.text, filled token List.mem_cons_self isWord⟩
    have isName : token.word = (.identifier, name.val) := word_of_kind isWord
    refine skip (peek ?_)
    split
    · split
      · exact fail
      · case h_2 absent =>
        refine (declarationWords token.text).bind fun added remaining declared => pure ?_
        obtain ⟨params, constructs, isRest, named⟩ := declared
        refine ⟨.declaration (some name) params added.2.label constructs, ?_, ?_, ?_⟩
        · rw [List.map_cons, isName]
          exact congrArg _ isRest
        · rintro _ ⟨⟩
          exact Draft.function?_eq_none_iff.mp absent
        · rw [Draft.outline_addFunction, named]
          rfl
    · split
      · case h_1 index found =>
        refine pure ⟨.reference name, ?_, Draft.exists_function?_iff.mp ⟨index, found⟩, rfl⟩
        rw [List.map_cons, isName]
        rfl
      · exact fail
  · refine (declarationWords []).bind fun added remaining declared => pure ?_
    obtain ⟨params, constructs, isTokens, named⟩ := declared
    refine ⟨.declaration none params added.2.label constructs, isTokens, fun _ none => ?_, ?_⟩
    · cases none
    · rw [Draft.outline_addFunction, named]
      rfl

theorem literalPhrase (filled : ∀ token ∈ tokens, token.kind = .identifier → token.text ≠ []) :
    Gives (Assembly.literal draft) tokens fun result remaining =>
      Operates tokens .literal draft.outline result.1.outline remaining := by
  refine next ?_
  split
  · case h_1 kind =>
    obtain ⟨token, rest, rfl, isNumber⟩ := exists_cons_of_kind kind (by decide)
    split
    · case h_1 value isValue =>
      have isDouble := exists_literalNumber?_iff.mp ⟨value, isValue⟩
      exact pure (operates_word (.number token.text isDouble)
        (by rw [word_of_kind isNumber]; rfl) rfl)
    · exact fail
  · case h_2 kind =>
    obtain ⟨token, rest, rfl, isText⟩ := exists_cons_of_kind kind (by decide)
    exact pure (operates_word (.quoted token.text) (by rw [word_of_kind isText]; rfl) rfl)
  · case h_3 kind =>
    obtain ⟨token, rest, rfl, isWord⟩ := exists_cons_of_kind kind (by decide)
    split
    · case isTrue isFunc =>
      obtain ⟨-, others⟩ := List.forall_mem_cons.mp filled
      refine (functionPhrase others).bind fun result remaining taken => pure ?_
      obtain ⟨phrase, isRest, admits, same⟩ := taken
      refine ⟨.function phrase, ?_, ?_, same⟩
      · have isFunc : token.word = (.identifier, Text.ofString "func") := Prod.ext isWord isFunc
        rw [List.map_cons, isFunc]
        exact congrArg _ isRest
      · rintro _ ⟨⟩
        exact admits
    · split
      · case h_1 datum isDatum =>
        have known := exists_wordDatum?_iff.mp ⟨datum, isDatum⟩
        exact pure (operates_word (.word token.text known)
          (by rw [word_of_kind isWord]; rfl) rfl)
      · exact fail
  · exact fail

theorem namePhrase :
    Gives nameDatum tokens fun _ remaining => ∀ outline,
      Operates tokens .name outline outline remaining := by
  refine next ?_
  split
  · case h_1 kind =>
    obtain ⟨token, rest, rfl, isWord⟩ := exists_cons_of_kind kind (by decide)
    exact pure fun outline =>
      operates_word (.name token.text) (by rw [word_of_kind isWord]; rfl) rfl
  · case h_2 kind =>
    obtain ⟨token, rest, rfl, isText⟩ := exists_cons_of_kind kind (by decide)
    exact pure fun outline =>
      operates_word (.quotedName token.text) (by rw [word_of_kind isText]; rfl) rfl
  · exact fail

theorem number :
    Gives Assembly.number tokens fun token remaining =>
      tokens = token :: remaining ∧ token.kind = .number := by
  refine next ?_
  dsimp only
  split
  · exact fail_bind
  · case isFalse kind =>
    obtain ⟨token, rest, rfl, isNumber⟩ := exists_cons_of_kind (not_not.mp kind) (by decide)
    exact pure ⟨rfl, isNumber⟩

theorem countPhrase :
    Gives countDatum tokens fun _ remaining => ∀ outline,
      Operates tokens .count outline outline remaining := by
  refine number.bind ?_
  rintro token rest ⟨rfl, isNumber⟩
  split
  · case h_1 count read =>
    split
    · exact fail
    · case isFalse natural =>
      rw [Int64.lt_iff_toInt_lt, not_lt] at natural
      have isCount := Text.exists_int64?_iff.mp ⟨count, read, natural⟩
      exact pure fun outline =>
        operates_word (.count token.text isCount) (by rw [word_of_kind isNumber]; rfl) rfl
  · exact fail

theorem jumpPhrase :
    Gives Assembly.jumpTarget tokens fun target remaining =>
      match target with
      | .inl use => ∀ outline, Operates tokens .jump outline
          { outline with targets := outline.targets ++ [use.label] } remaining
      | .inr _ => ∀ outline, Operates tokens .jump outline outline remaining := by
  refine next ?_
  split
  · case isTrue sign =>
    cases tokens with
    | nil => cases sign
    | cons token rest =>
      refine identifier fun label behind isRest isLabel => pure fun outline => ?_
      refine operates_plain (.target label.text) ?_ rfl
      have isSign : token.word = (.symbol, Text.ofString "@") := word_of_is sign
      rw [List.map_cons, isSign, show rest = _ from isRest, List.map_cons, word_of_kind isLabel]
      rfl
  split
  · case isFalse.isTrue kind =>
    obtain ⟨token, rest, rfl, isNumber⟩ := exists_cons_of_kind kind (by decide)
    split
    · case h_1 offset read =>
      have isOffset : ∃ offset, IsInteger token.text offset :=
        ⟨_, Text.int64?_eq_some_iff.mp read⟩
      exact pure fun outline =>
        operates_word (.offset token.text isOffset) (by rw [word_of_kind isNumber]; rfl) rfl
    · exact fail
  · exact fail

theorem instructionPhrase (opcode : Opcode)
    (filled : ∀ token ∈ tokens, token.kind = .identifier → token.text ≠ []) :
    Gives (Assembly.instruction draft opcode) tokens fun after remaining => ∃ before,
      Operates tokens opcode.operandClass draft.outline before remaining ∧
      after.outline = { before with size := draft.outline.size + 1 } := by
  unfold Assembly.instruction
  generalize opcode.operandClass = kind
  cases kind with
  | none =>
    exact pure ⟨draft.outline, operates_plain .none rfl rfl, draft.outline_addInstruction _⟩
  | name =>
    exact namePhrase.bind fun datum remaining operates =>
      pure ⟨draft.outline, operates _, draft.outline_addInstruction _⟩
  | count =>
    exact countPhrase.bind fun datum remaining operates =>
      pure ⟨draft.outline, operates _, draft.outline_addInstruction _⟩
  | jump =>
    refine jumpPhrase.bind fun target remaining operates => ?_
    cases target with
    | inl use =>
      refine pure ⟨_, operates _, ?_⟩
      rw [Draft.outline_addInstruction, Draft.outline_addJump]
    | inr offset => exact pure ⟨draft.outline, operates _, draft.outline_addInstruction _⟩
  | literal =>
    refine (literalPhrase filled).bind fun (after, datum) remaining operates => pure ?_
    refine ⟨after.outline, operates, ?_⟩
    obtain ⟨phrase, -, -, same⟩ := operates
    rw [Draft.outline_addInstruction, same, Outline.size_operand]

theorem directivePhrase {token : Token} :
    Gives (Assembly.directive draft token) tokens fun after remaining => ∃ phrase : StatementPhrase,
      token.text = phrase.keyword ∧
      tokens.map Token.word = phrase.operandWords ++ remaining.map Token.word ∧
      phrase.function? = none ∧ after.outline = draft.outline.statement phrase := by
  refine identifier fun label behind isTokens isLabel => ?_
  have isWords : tokens.map Token.word = (.identifier, label.text) :: behind.map Token.word := by
    rw [isTokens, List.map_cons, word_of_kind isLabel]
  dsimp only
  split
  · case isTrue isEntry => exact pure ⟨.entry label.text, isEntry, isWords, rfl, rfl⟩
  split
  · case isFalse.isTrue isStop => exact pure ⟨.stop label.text, isStop, isWords, rfl, rfl⟩
  · exact fail

theorem statementPhrase {token : Token}
    (filled : ∀ token ∈ tokens, token.kind = .identifier → token.text ≠ []) :
    Gives (Assembly.statement draft token) tokens fun after _ =>
      ∃ (phrase : StatementPhrase) (behind : List Token),
      token.text = phrase.keyword ∧
      tokens.map Token.word = phrase.operandWords ++ behind.map Token.word ∧
      (∀ token ∈ behind.head?, token.kind.IsEnd) ∧
      (∀ function ∈ phrase.function?, draft.outline.Admits function) ∧
      after.outline = draft.outline.statement phrase := by
  unfold Assembly.statement
  dsimp only
  split
  · refine directivePhrase.bind fun after remaining directed => endOfLine fun atEnd => ?_
    obtain ⟨phrase, isFirst, isWords, noFunction, same⟩ := directed
    refine ⟨phrase, remaining, isFirst, isWords, atEnd, fun function isFunction => ?_, same⟩
    rw [noFunction] at isFunction
    cases isFunction
  split
  · case h_1 opcode named =>
    have valid : opcode ∈ Opcode.valid := List.mem_of_find?_eq_some named
    have isName : opcode.name = token.text := by simpa using List.find?_some named
    refine (instructionPhrase opcode filled).bind fun after remaining taken =>
      endOfLine fun atEnd => ?_
    obtain ⟨before, ⟨operand, isWords, admits, rfl⟩, same⟩ := taken
    exact ⟨.instruction opcode valid operand, remaining, isName.symm, isWords, atEnd, admits, same⟩
  · exact fail_bind

theorem linePhrase (filled : ∀ token ∈ tokens, token.kind = .identifier → token.text ≠ []) :
    Gives (Assembly.line draft) tokens fun after _ =>
      ∃ (phrase : LinePhrase) (behind : List Token),
      tokens.map Token.word = phrase.words ++ behind.map Token.word ∧
      (∀ token ∈ behind.head?, token.kind.IsEnd) ∧
      draft.outline.Allows phrase ∧ after.outline = draft.outline.line phrase := by
  refine firstWord? (fun atEnd => pure ?_) fun first behind isTokens isFirst => peek ?_
  · exact ⟨{}, tokens, rfl, atEnd, ⟨by rintro _ ⟨⟩, by rintro _ ⟨⟩⟩, rfl⟩
  subst isTokens
  obtain ⟨-, filled⟩ := List.forall_mem_cons.mp filled
  split
  · case isTrue isColon =>
    obtain ⟨colon, rest, rfl⟩ : ∃ colon rest, behind = colon :: rest := by
      cases behind with
      | nil => cases isColon
      | cons colon rest => exact ⟨colon, rest, rfl⟩
    obtain ⟨-, filled⟩ := List.forall_mem_cons.mp filled
    have isLabel : (first :: colon :: rest).map Token.word =
        LinePhrase.labelWords (some first.text) ++ rest.map Token.word := by
      have isColon : colon.word = (.symbol, Text.ofString ":") := word_of_is isColon
      rw [List.map_cons, List.map_cons, word_of_kind isFirst, isColon]
      rfl
    refine skip ?_
    dsimp only
    split
    · exact fail_bind
    · case isFalse absent =>
      have fresh : ∀ label ∈ some first.text, label ∉ draft.outline.labels.map Prod.fst := by
        rintro _ ⟨⟩
        exact Draft.address?_eq_none_iff.mp (by simpa using absent)
      refine firstWord? (fun atEnd => pure ?_) fun word more isRest isWord => ?_
      · refine ⟨{ label := some first.text }, rest, isLabel, atEnd, ⟨fresh, ?_⟩, rfl⟩
        rintro _ ⟨⟩
      · obtain rfl : rest = word :: more := isRest
        obtain ⟨-, filled⟩ := List.forall_mem_cons.mp filled
        refine (statementPhrase filled).mono fun after _ taken => ?_
        obtain ⟨phrase, last, isKeyword, isMore, atEnd, admits, same⟩ := taken
        refine ⟨⟨some first.text, some phrase⟩, last, ?_, atEnd, ⟨fresh, admits⟩, same⟩
        rw [isLabel, List.map_cons, isMore, word_of_kind isWord, isKeyword]
        simp [LinePhrase.words, StatementPhrase.words]
  · refine (statementPhrase filled).mono fun after _ taken => ?_
    obtain ⟨phrase, last, isKeyword, isMore, atEnd, admits, same⟩ := taken
    refine ⟨⟨none, some phrase⟩, last, ?_, atEnd, ⟨by rintro _ ⟨⟩, admits⟩, same⟩
    rw [List.map_cons, isMore, word_of_kind isFirst, isKeyword]
    rfl

end Gives

end ScriptEngine.Assembly
