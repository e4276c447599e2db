/-
This file says what the listing of a program has to say to be a source. Where the rows of a program
are accepted, each of them spells a line of the grammar, and by the words of a row there is only one
line that it can spell. So every count is an integer that is not negative, every function constructs
something of a known kind, and its entry has a label, which stands in front of an instruction or
behind the last.
-/

import Mathlib
import ScriptEngine.Proofs.Assembly.Acceptance

namespace ScriptEngine

/-- A number is written as a count. -/
def Number.IsCount (number : Float) : Prop :=
  ∃ count, Text.int64? (Layout.value.write number) = some count ∧ 0 ≤ count

namespace Assembly

open Number (Layout)
open Text (IsInteger)

/-! ### Rows and phrases -/

/-- A source that assembles is spelt, `Spells`, by lines that are `Coherent`. -/
theorem exists_spells_of_assemble {source : Text} {program : Program}
    (assembles : assemble source = .ok program) :
    ∃ lines, List.Forall₂ Spells (tokenLinesFrom [] (tokens source)) lines ∧ Coherent lines := by
  obtain ⟨draft, read, links⟩ := assemble_eq_ok_iff.mp assembles
  have areLines : ∀ found ∈ tokenLinesFrom [] (tokens source), IsLine found :=
    fun found member => isLine_of_mem_tokenLinesFrom (List.forall_mem_nil _) member
  have filled : ∀ found ∈ tokenLinesFrom [] (tokens source), ∀ token ∈ found,
      token.kind = .identifier → token.text ≠ [] := fun found member token among =>
    filled_of_mem_tokens token (mem_of_mem_tokenLinesFrom found member token among)
  obtain ⟨lines, spells, declares, same⟩ := exists_phrases areLines filled rfl declares_nil read
  exact ⟨lines, spells, (Draft.exists_link_iff same declares).mp ⟨program, links⟩⟩

/-- Rows that assemble have the words of lines that declare the entries of their functions. -/
theorem exists_phrases_of_assemble {rows : List Row} {program : Program}
    (neat : ∀ row ∈ rows, Row.Neat row)
    (assembles : assemble (rows.flatMap Row.text) = .ok program) :
    ∃ phrases, phrases.map LinePhrase.words = rows.map Row.words ∧
      ∀ label ∈ entryLabels phrases, label ∈ declaredLabels phrases := by
  obtain ⟨lines, spells, coherent⟩ := exists_spells_of_assemble assembles
  have spelt : ((tokenLinesFrom [] (tokens (rows.flatMap Row.text))).map
      fun line => (line.map Token.word).dropLast) = lines.map LinePhrase.words := by
    rw [← List.forall₂_eq_eq_eq, List.forall₂_map_left_iff, List.forall₂_map_right_iff]
    refine spells.imp fun line phrase spells => ?_
    obtain ⟨last, -, isLine⟩ := spells
    rw [isLine, List.dropLast_concat]
  have words := congrArg (List.map List.dropLast) (map_word_tokenLinesFrom (words_tokens neat))
  have isLines : lines.map LinePhrase.words = rows.map Row.words ++ [[]] := by
    rw [← spelt]
    simpa [Function.comp_def] using words
  obtain ⟨phrases, final, rfl, isPhrases, isFinal⟩ := List.map_eq_append_iff.mp isLines
  obtain ⟨last, rfl, empty⟩ := List.map_eq_singleton_iff.mp isFinal
  have unlabelled : last.label = none := by
    obtain ⟨label, statement⟩ := last
    cases label with
    | none => rfl
    | some label => cases empty
  refine ⟨phrases, isPhrases, fun label member => ?_⟩
  have among : label ∈ entryLabels (phrases ++ [last]) := by
    unfold entryLabels at member ⊢
    rw [List.filterMap_append]
    exact List.mem_append_left _ member
  have declared := coherent.entries label among
  unfold declaredLabels at declared
  rw [List.filterMap_append] at declared
  refine (List.mem_append.mp declared).resolve_right ?_
  simp [unlabelled]

/-! ### What the words of a row say -/

/-- Words that start with that of an opcode are those of an instruction. -/
theorem exists_operand {phrase : LinePhrase} {opcode : Opcode} (valid : opcode ∈ Opcode.valid)
    {words : List Word} (isWords : phrase.words = (.identifier, opcode.name) :: words)
    (notLabel : ∀ word ∈ words.head?, word ≠ (.symbol, Text.ofString ":")) :
    ∃ operand : OperandPhrase opcode.operandClass,
      phrase = ⟨none, some (.instruction opcode valid operand)⟩ ∧ operand.words = words := by
  have notDirective : ∀ opcode ∈ Opcode.valid, opcode.name ≠ Text.ofString ".entry" ∧
      opcode.name ≠ Text.ofString ".end" := by decide
  obtain ⟨label, statement⟩ := phrase
  cases label with
  | some label =>
    obtain ⟨-, rfl⟩ := List.cons.inj isWords
    exact absurd rfl (notLabel _ rfl)
  | none =>
    cases statement with
    | none => cases isWords
    | some statement =>
      obtain ⟨isName, isOperand⟩ := List.cons.inj isWords
      have keyword : statement.keyword = opcode.name := congrArg Prod.snd isName
      cases statement with
      | entry label => exact absurd keyword.symm (notDirective opcode valid).1
      | stop label => exact absurd keyword.symm (notDirective opcode valid).2
      | instruction other otherValid operand =>
        have same := Opcode.ofName?_name otherValid
        rw [show other.name = opcode.name from keyword, Opcode.ofName?_name valid] at same
        cases same
        exact ⟨operand, rfl, isOperand⟩

/-- The word of a number, its `numberScrap`, is that of a count only if it `IsCount`. -/
theorem isCount_of_words {kind : Opcode.OperandClass} {operand : OperandPhrase kind}
    (isClass : kind = .count) {number : Float}
    (isWords : operand.words = [numberScrap .value number].filterMap Scrap.word?) :
    Number.IsCount number := by
  subst isClass
  cases operand with
  | count numeral isCount =>
    have isText : numeral = Layout.value.write number := by
      unfold numberScrap at isWords
      split at isWords
      · cases isWords
        rfl
      · cases isWords
    subst isText
    obtain ⟨count, read, natural⟩ := Text.exists_int64?_iff.mpr isCount
    exact ⟨count, read, Int64.le_iff_toInt_le.mpr natural⟩

/-- The words of a function that is pushed are those of a function phrase behind its word. -/
theorem exists_function_of_words {kind : Opcode.OperandClass} {operand : OperandPhrase kind}
    (isClass : kind = .literal) {words : List Word}
    (isWords : operand.words = (.identifier, Text.ofString "func") :: words) :
    ∃ phrase, operand.function? = some phrase ∧ phrase.words = words := by
  subst isClass
  cases operand with
  | function phrase => exact ⟨phrase, rfl, (List.cons.inj isWords).2⟩
  | number numeral isDouble => cases isWords
  | quoted text => cases isWords
  | word text known =>
    have isText : text = Text.ofString "func" := congrArg Prod.snd (List.cons.inj isWords).1
    rw [isText] at known
    exact absurd known (by decide)

/-- There are no brackets between parameters. -/
theorem not_mem_parametersWords (params : List Text) :
    (.symbol, Text.ofString ")") ∉ parametersWords params := by
  rw [parametersWords_eq]
  cases params with
  | nil => exact List.not_mem_nil
  | cons first others =>
    have other : Text.ofString ")" ≠ Text.ofString "," := by decide
    rw [words_parameterScraps, parameterWords]
    simp [other]

theorem words_constructScraps {kind : ConstructKind}
    {constructs : Option { word // word ∈ constructWords }}
    (isWords : (constructScraps kind).filterMap Scrap.word? =
      constructs.toList.map (.identifier, ·.val)) : kind ∈ ConstructKind.known := by
  cases kind with
  | unknown beyond =>
    -- four words, where a known kind has one at most
    have lengths := congrArg List.length isWords
    cases constructs <;> cases lengths
  | object | array | boolean | number => decide

/-- The words of a function in full, its `declarationScraps`, are those of a declaration with its
entry, and of a known kind. -/
theorem exists_declaration {phrase : FunctionPhrase} {declaration : Declaration}
    (isWords : phrase.words = (declarationScraps declaration).filterMap Scrap.word?) :
    phrase.entry? = some (labelName declaration.entry) ∧
      declaration.constructs ∈ ConstructKind.known := by
  have scraps : (declarationScraps declaration).filterMap Scrap.word? =
      ((if declaration.name = [] then [] else [(.identifier, declaration.name)]) ++
        (.symbol, Text.ofString "(") :: parametersWords declaration.params) ++
        (.symbol, Text.ofString ")") :: (.symbol, Text.ofString "@") ::
          (.identifier, labelName declaration.entry) ::
            (constructScraps declaration.constructs).filterMap Scrap.word? := by
    rw [filterMap_declarationScraps, parametersWords_eq, List.append_assoc, List.cons_append]
  rw [scraps] at isWords
  cases phrase with
  | reference name =>
    have member : (.symbol, Text.ofString ")") ∈ (FunctionPhrase.reference name).words := by
      rw [isWords]
      simp
    simp [FunctionPhrase.words] at member
  | declaration name params label constructs =>
    have split : (FunctionPhrase.declaration name params label constructs).words =
        (name.toList.map (.identifier, ·.val) ++
          (.symbol, Text.ofString "(") :: parametersWords params) ++
          (.symbol, Text.ofString ")") :: (.symbol, Text.ofString "@") :: (.identifier, label) ::
            constructs.toList.map (.identifier, ·.val) := by
      rw [FunctionPhrase.words, FunctionPhrase.declarationWords]
      simp
    have opens : Text.ofString ")" ≠ Text.ofString "(" := by decide
    have sign : Text.ofString ")" ≠ Text.ofString "@" := by decide
    have before : ((.symbol, Text.ofString ")") : Word) ∉
        name.toList.map (.identifier, ·.val) ++
          (.symbol, Text.ofString "(") :: parametersWords params := by
      simp [opens, not_mem_parametersWords params]
    have behind : ((.symbol, Text.ofString ")") : Word) ∉
        (.symbol, Text.ofString "@") :: (.identifier, label) ::
          constructs.toList.map (.identifier, ·.val) := by
      simp [sign]
    -- the first closing bracket of the phrase is the one behind its parameters
    rw [split] at isWords
    obtain ⟨-, -, same⟩ := (List.append_cons_inj_of_notMem before behind).mp isWords
    obtain ⟨-, same⟩ := List.cons.inj same
    obtain ⟨isLabel, isKind⟩ := List.cons.inj same
    exact ⟨congrArg some (Prod.mk.inj isLabel).2, words_constructScraps isKind.symm⟩

/-! ### The rows of a program -/

variable {program : Program}

/-- Among the rows of instructions there are only labels of addresses and instructions. -/
theorem cases_of_mem_bodyRows {labels : List Int64} {met pc : ℕ} {code : List (Instruction ℕ)}
    {row : Row} (member : row ∈ bodyRows program labels met (numberedFrom pc code)) :
    (∃ address < pc + code.length, row ∈ labelRows labels (Int64.ofNat address)) ∨
      ∃ before place, ∃ instruction ∈ code,
        row = instructionRow program before place instruction := by
  induction code generalizing met pc with
  | nil => cases member
  | cons instruction rest ih =>
    rw [numberedFrom_cons, bodyRows] at member
    rw [List.length_cons]
    rcases List.mem_append.mp member with label | member
    · exact .inl ⟨pc, by omega, label⟩
    rcases List.mem_cons.mp member with rfl | later
    · exact .inr ⟨met, pc, instruction, List.mem_cons_self, rfl⟩
    rcases ih later with ⟨address, below, label⟩ | ⟨before, place, other, among, isRow⟩
    · exact .inl ⟨address, by omega, label⟩
    · exact .inr ⟨before, place, other, List.mem_cons_of_mem _ among, isRow⟩

theorem eq_of_mem_labelRows {labels : List Int64} {address : Int64} {row : Row}
    (member : row ∈ labelRows labels address) : row = [.word (labelName address), .symbol ':'] := by
  unfold labelRows at member
  split at member
  · exact List.mem_singleton.mp member
  · cases member

/-- A row is a directive, or the label of an address, or an instruction. -/
theorem cases_of_mem_rows {row : Row} (member : row ∈ rows program) :
    (∃ word label, row = [.word word, .blank ' ', .word label]) ∨
      (∃ address ≤ program.code.size,
        row = [.word (labelName (Int64.ofNat address)), .symbol ':']) ∨
      ∃ met pc, ∃ instruction ∈ program.code.toList,
        row = instructionRow program met pc instruction := by
  have directive {word : Text} {bound usual : Int64}
      (among : row ∈ directiveRows word bound usual) :
      ∃ word label, row = [.word word, .blank ' ', .word label] := by
    unfold directiveRows at among
    split at among
    · cases among
    · exact ⟨_, _, List.mem_singleton.mp among⟩
  unfold rows at member
  rw [numbered_snapshot] at member
  rcases List.mem_append.mp member with member | last
  · rcases List.mem_append.mp member with member | body
    · exact .inl ((List.mem_append.mp member).elim directive directive)
    · rcases cases_of_mem_bodyRows body with ⟨address, below, label⟩ | instruction
      · rw [Nat.zero_add, Array.length_toList] at below
        exact .inr (.inl ⟨address, below.le, eq_of_mem_labelRows label⟩)
      · exact .inr (.inr instruction)
  · exact .inr (.inl ⟨program.code.size, le_rfl, eq_of_mem_labelRows last⟩)

/-- An instruction has a row among the `bodyRows`, behind the functions that were met before it. -/
theorem instructionRow_mem_bodyRows (program : Program) (labels : List Int64) (met pc : ℕ)
    (before after : List (Instruction ℕ)) (instruction : Instruction ℕ) :
    instructionRow program (before.foldl metAfter met) (pc + before.length) instruction ∈
      bodyRows program labels met (numberedFrom pc (before ++ instruction :: after)) := by
  induction before generalizing met pc with
  | nil => exact List.mem_append_right _ List.mem_cons_self
  | cons first rest ih =>
    have later := ih (metAfter met first) (pc + 1)
    rw [List.cons_append, numberedFrom_cons, bodyRows, List.length_cons, List.foldl_cons,
      Nat.add_comm rest.length, ← Nat.add_assoc]
    exact List.mem_append_right _ (List.mem_cons_of_mem _ later)

theorem foldl_metAfter (before : List (Instruction ℕ)) :
    before.foldl metAfter 0 = reach (functionsUsed before) := by
  induction before using List.reverseRecOn with
  | nil => rfl
  | append_singleton before instruction ih =>
    rw [List.foldl_append, ih, reach_functionsUsed_snoc]
    rfl

theorem instructionRow_mem_rows {before after : List (Instruction ℕ)} {instruction : Instruction ℕ}
    (split : program.code.toList = before ++ instruction :: after) :
    instructionRow program (reach (functionsUsed before)) before.length instruction ∈
      rows program := by
  have member := instructionRow_mem_bodyRows program (targets program.snapshot) 0 0 before after
    instruction
  rw [foldl_metAfter, Nat.zero_add, ← split] at member
  unfold rows
  rw [numbered_snapshot]
  exact List.mem_append_left _ (List.mem_append_right _ member)

theorem head?_operandWords (program : Program) (met pc : ℕ) (instruction : Instruction ℕ) :
    ∀ word ∈ ((operandScraps program met pc instruction).filterMap Scrap.word?).head?,
      word ≠ (.symbol, Text.ofString ":") := by
  obtain ⟨first, others, isWords, other⟩ := exists_operandWords program met pc instruction
  intro word isFirst
  cases isEmpty : (operandScraps program met pc instruction).filterMap Scrap.word? with
  | nil =>
    rw [isEmpty] at isFirst
    cases isFirst
  | cons head rest =>
    rw [isEmpty] at isFirst isWords
    cases isFirst
    exact (List.cons.inj isWords).1 ▸ other

/-- The line of an instruction has an operand with the words of the row. -/
theorem exists_operand_of_row {met pc : ℕ} {instruction : Instruction ℕ} {phrase : LinePhrase}
    (valid : instruction.opcode ∈ Opcode.valid)
    (isWords : phrase.words = Row.words (instructionRow program met pc instruction)) :
    ∃ operand : OperandPhrase instruction.opcode.operandClass,
      phrase = ⟨none, some (.instruction instruction.opcode valid operand)⟩ ∧
      operand.words = (operandScraps program met pc instruction).filterMap Scrap.word? :=
  exists_operand valid isWords (head?_operandWords program met pc instruction)

/-- Only an address has a `labelName`. -/
theorem exists_address_of_label {row : Row} {phrase : LinePhrase} {label : Text}
    (opcodes : ∀ instruction ∈ program.code.toList, instruction.opcode ∈ Opcode.valid)
    (member : row ∈ rows program) (isWords : phrase.words = row.words)
    (labelled : phrase.label = some label) :
    ∃ address ≤ program.code.size, label = labelName (Int64.ofNat address) := by
  rcases cases_of_mem_rows member with ⟨word, other, rfl⟩ | ⟨address, bound, rfl⟩ |
    ⟨met, pc, instruction, among, rfl⟩
  · unfold LinePhrase.words LinePhrase.labelWords at isWords
    rw [labelled] at isWords
    cases isWords
  · unfold LinePhrase.words LinePhrase.labelWords at isWords
    rw [labelled] at isWords
    exact ⟨address, bound, (Prod.mk.inj (List.cons.inj isWords).1).2⟩
  · obtain ⟨operand, rfl, -⟩ := exists_operand_of_row (opcodes instruction among) isWords
    cases labelled

/-! ### What listings say -/

/-- Only a push shows a function. -/
theorem literal_of_function? {instruction : Instruction ℕ} {index : ℕ}
    (listed : instruction.datum.Listed instruction.opcode.operandClass)
    (pushed : instruction.function? = some index) :
    instruction.opcode.operandClass = .literal ∧ instruction.datum = .ofObject (some index) := by
  unfold Instruction.function? at pushed
  generalize instruction.datum = datum at listed pushed
  cases isClass : instruction.opcode.operandClass with
  | none | jump =>
    rw [isClass] at listed
    rw [show datum = {} from listed] at pushed
    cases pushed
  | name =>
    rw [isClass] at listed
    obtain ⟨text, rfl | rfl⟩ := listed <;> cases pushed
  | count =>
    rw [isClass] at listed
    obtain ⟨value, rfl⟩ := listed
    cases pushed
  | literal =>
    rw [isClass] at listed
    have isLiteral : datum.Literal := listed
    cases isLiteral with
    | null | number | text | bool => cases pushed
    | object place =>
      cases pushed
      exact ⟨rfl, rfl⟩

/-- Every function of a `Listed` program is met for a first time. -/
theorem exists_first_use (listed : program.Listed) {index : ℕ}
    (below : index < program.items.toList.length) :
    ∃ before instruction after, program.code.toList = before ++ instruction :: after ∧
      instruction.function? = some index ∧ reach (functionsUsed before) = index := by
  have within (front back : List (Instruction ℕ)) (split : program.code.toList = front ++ back)
      (met : index < reach (functionsUsed front)) :
      ∃ before instruction after, program.code.toList = before ++ instruction :: after ∧
        instruction.function? = some index ∧ reach (functionsUsed before) = index := by
    induction front using List.reverseRecOn generalizing back with
    | nil => cases met
    | append_singleton front instruction ih =>
      rw [List.append_assoc, List.singleton_append] at split
      by_cases earlier : index < reach (functionsUsed front)
      · exact ih _ split earlier
      · rw [reach_functionsUsed_snoc, metAfter] at met
        cases pushed : instruction.function? with
        | none =>
          rw [pushed] at met
          exact absurd met earlier
        | some use =>
          rw [pushed] at met
          obtain ⟨declaration, -, place⟩ := listed.known split pushed
          dsimp only at met
          -- not met before, so it is the next, and not an earlier one with a name
          have same : use = index := by omega
          exact ⟨front, instruction, back, split, same ▸ pushed, by omega⟩
  exact within program.code.toList [] (List.append_nil _).symm (listed.all ▸ below)

end Assembly

/-- What a listing says of a program can be said in assembly. -/
structure Program.Spellable (program : Program) : Prop where
  counts : ∀ instruction ∈ program.code.toList, instruction.opcode.operandClass = .count →
    Number.IsCount instruction.datum.number
  constructs : ∀ declaration ∈ program.items.toList,
    declaration.constructs ∈ ConstructKind.known
  entries : ∀ declaration ∈ program.items.toList, ∃ address ≤ program.code.size,
    declaration.entry = Int64.ofNat address

namespace Assembly

/-- The rows of a `Plain` program assemble only if it is `Spellable`. -/
theorem spellable_of_assemble {program again : Program} (listed : program.Listed)
    (plain : program.Plain)
    (worded : ∀ declaration ∈ program.items.toList, declaration.Worded)
    (assembles : assemble ((rows program).flatMap Row.text) = .ok again) : program.Spellable := by
  obtain ⟨phrases, isWords, entries⟩ :=
    exists_phrases_of_assemble (neat_rows listed plain worded) assembles
  have spelt {row : Row} (member : row ∈ rows program) :
      ∃ phrase ∈ phrases, phrase.words = row.words :=
    List.mem_map.mp (isWords ▸ List.mem_map_of_mem member)
  have declaration {index : ℕ} {declaration : Declaration}
      (found : program.items.toList[index]? = some declaration) :
      (∃ address ≤ program.code.size, declaration.entry = Int64.ofNat address) ∧
        declaration.constructs ∈ ConstructKind.known := by
    obtain ⟨before, instruction, after, split, pushed, met⟩ :=
      exists_first_use listed (List.getElem?_eq_some_iff.mp found).1
    have member : instruction ∈ program.code.toList := by simp [split]
    obtain ⟨isLiteral, isDatum⟩ := literal_of_function? (listed.data instruction member) pushed
    have scraps : operandScraps program index before.length instruction =
        .blank ' ' :: .word "func" :: .blank ' ' :: declarationScraps declaration := by
      have first : functionScraps index index declaration = declarationScraps declaration :=
        if_pos rfl
      unfold operandScraps
      rw [isLiteral, isDatum]
      dsimp only
      rw [literalScraps_ofObject program index found, first]
    obtain ⟨line, among, isLine⟩ := spelt (instructionRow_mem_rows split)
    obtain ⟨operand, rfl, isOperand⟩ :=
      exists_operand_of_row (listed.opcodes instruction member) isLine
    rw [met, scraps] at isOperand
    obtain ⟨phrase, isFunction, isPhrase⟩ := exists_function_of_words isLiteral isOperand
    obtain ⟨isEntry, known⟩ := exists_declaration isPhrase
    refine ⟨?_, known⟩
    have used : labelName declaration.entry ∈ entryLabels phrases :=
      List.mem_filterMap.mpr ⟨_, among, (congrArg (Option.bind · _) isFunction).trans isEntry⟩
    obtain ⟨place, there, isLabel⟩ := List.mem_filterMap.mp (entries _ used)
    obtain ⟨row, isRow, same⟩ := List.mem_map.mp (isWords ▸ List.mem_map_of_mem there)
    obtain ⟨address, bound, isAddress⟩ :=
      exists_address_of_label listed.opcodes isRow same.symm isLabel
    refine ⟨address, bound, Int64.toInt_inj.mp (Text.ofInt_inj.mp ?_)⟩
    exact (List.cons.inj isAddress).2
  refine ⟨fun instruction member isCount => ?_, fun other member => ?_, fun other member => ?_⟩
  · obtain ⟨before, after, split⟩ := List.append_of_mem member
    obtain ⟨phrase, -, isLine⟩ := spelt (instructionRow_mem_rows split)
    obtain ⟨operand, -, isOperand⟩ :=
      exists_operand_of_row (listed.opcodes instruction member) isLine
    have scraps : operandScraps program (reach (functionsUsed before)) before.length instruction =
        [.blank ' ', numberScrap .value instruction.datum.number] := by
      unfold operandScraps
      rw [isCount]
    rw [scraps] at isOperand
    exact isCount_of_words isCount isOperand
  · obtain ⟨index, found⟩ := List.getElem?_of_mem member
    exact (declaration found).2
  · obtain ⟨index, found⟩ := List.getElem?_of_mem member
    exact (declaration found).1

end Assembly

end ScriptEngine
