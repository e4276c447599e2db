/-
This file says which instruction of its source a line of a listing stands for. An instruction is
printed as its opcode and maybe an operand that is no colon, so that its line holds an instruction
and defines no label; the lines of labels and directives hold none. Parameters of functions are
printed as they are, and one with a line break makes more lines of its own; without such parameters
each instruction has one line that stands for it, and keeps its place.
-/

import Mathlib
import ScriptEngine.Proofs.Assembly.Naming
import ScriptEngine.Proofs.Assembly.Partition
import ScriptEngine.Proofs.Assembly.Phrases
import ScriptEngine.Proofs.Assembly.Splitting

namespace ScriptEngine

open Text (chars)

namespace Assembly

/-! ### Lines that start with scraps -/

/-- The words of scraps that are `Neat` start a line. -/
theorem exists_line_of_scraps {scraps : List Scrap} (neat : Row.Neat scraps) {rest : Text}
    (stops : ∀ last ∈ scraps.getLast?, last.Stops (chars rest)) (position : Position) :
    ∃ line others next more, linesFrom position (chars (scrapsText scraps ++ rest)) =
        line :: others ∧
      line.map Token.word = Row.words scraps ++ next :: more ∧
      ∀ behind, rest = 10 :: behind → next = (.endOfLine, []) := by
  obtain ⟨behind, isWords⟩ := exists_wordsFrom_scraps neat stops position
  obtain ⟨line, others, more, isLines, isLine⟩ :=
    exists_line_of_words isWords fun word member => not_isEnd_of_mem_words member
  refine ⟨line, others, _, more, isLines, isLine, ?_⟩
  rintro rest rfl
  have newline : chars (10 :: rest) = '\n' :: chars rest := Text.chars_ofChars_append ['\n'] rest
  rw [newline, wordsFrom_newline]
  rfl

/-! ### What the first words of a line say -/

/-- A line whose first word is followed by no colon holds, by `opcodeOf?`, what that word names. -/
theorem opcodeOf?_of_words {line : List Token} {keyword : Text} {next : Word} {more : List Word}
    (isLine : line.map Token.word = (.identifier, keyword) :: next :: more)
    (noColon : next ≠ (.symbol, Text.ofString ":")) :
    opcodeOf? line = Opcode.ofName? keyword := by
  obtain ⟨first, rest, rfl, isFirst, isRest⟩ := List.map_eq_cons_iff.mp isLine
  obtain ⟨second, others, rfl, isSecond, -⟩ := List.map_eq_cons_iff.mp isRest
  obtain ⟨kind, text⟩ := Prod.mk.inj isFirst
  have noLabel : labelOf? (first :: second :: others) = none :=
    if_neg fun both => noColon (isSecond.symm.trans (word_of_is both.2))
  have whole : unlabelled (first :: second :: others) = first :: second :: others := by
    unfold unlabelled
    rw [noLabel]
    rfl
  rw [opcodeOf?, whole, leadingOpcode?, if_pos kind, text]

/-- A line with nothing behind its label holds nothing. -/
theorem opcodeOf?_of_label {line : List Token} {label : Text} {next : Word} {more : List Word}
    (isLine : line.map Token.word =
      (.identifier, label) :: (.symbol, Text.ofString ":") :: next :: more)
    (isEnd : next.1.IsEnd) : opcodeOf? line = none := by
  obtain ⟨first, rest, rfl, isFirst, isRest⟩ := List.map_eq_cons_iff.mp isLine
  obtain ⟨second, others, rfl, isSecond, isOthers⟩ := List.map_eq_cons_iff.mp isRest
  obtain ⟨third, behind, rfl, isThird, -⟩ := List.map_eq_cons_iff.mp isOthers
  obtain ⟨kind, -⟩ := Prod.mk.inj isFirst
  obtain ⟨symbol, colon⟩ := Prod.mk.inj isSecond
  have isColon : second.is .symbol ":" = true := by
    unfold Token.is
    rw [symbol, colon]
    rfl
  have isLabel : labelOf? (first :: second :: third :: behind) = some first.text :=
    if_pos ⟨kind, isColon⟩
  have rest : unlabelled (first :: second :: third :: behind) = third :: behind := by
    unfold unlabelled
    rw [isLabel]
    rfl
  have noWord : third.kind ≠ .identifier := by
    rw [← isThird] at isEnd
    exact isEnd.ne_identifier
  rw [opcodeOf?, rest, leadingOpcode?, if_neg noWord]

/-! ### Texts without line breaks -/

theorem newline_not_mem_of_isDigit {text : Text}
    (digits : ∀ byte ∈ text, Number.Decimal.isDigit byte = true) : 10 ∉ text :=
  fun member => absurd (digits 10 member) (by decide)

theorem newline_not_mem_of_identifierChars {text : Text}
    (all : ∀ char ∈ chars text, isIdentifierChar char = true) : 10 ∉ text := by
  intro member
  have newline := all '\n' (Text.newline_mem_chars_iff.mpr member)
  cases newline.symm.trans (isIdentifierChar_special '\n' (by simp)).1

/-- A scrap stays on its line. -/
theorem Scrap.newline_not_mem {scrap : Scrap} (proper : scrap.Proper) : 10 ∉ scrap.text := by
  cases scrap with
  | word text => exact newline_not_mem_of_identifierChars (isIdentifierChar_of_isWord proper)
  | numeral text => exact newline_not_mem_of_identifierChars (isIdentifierChar_of_isNumeral proper)
  | blank char =>
    intro member
    have newline := Text.newline_mem_chars_iff.mpr member
    rw [Scrap.text, Text.chars_ofChars, List.mem_singleton] at newline
    subst newline
    cases proper
  | symbol char =>
    intro member
    have newline := Text.newline_mem_chars_iff.mpr member
    rw [Scrap.text, Text.chars_ofChars, List.mem_singleton] at newline
    subst newline
    cases proper
  | quoted text =>
    intro member
    have newline := Text.newline_mem_chars_iff.mpr member
    rw [Scrap.text, Text.Quoted.encode_eq, Text.chars_ofChars] at newline
    obtain ⟨inside, isInside, inLine⟩ :=
      exists_inside (Text.Quoted.closingLength_inner text [])
    have same : Text.Quoted.inner text = inside := by
      rw [List.take_of_length_le (by simp)] at isInside
      exact (List.append_inj' isInside rfl).1
    rw [same] at newline
    simp [inLine] at newline

theorem newline_not_mem_scrapsText {scraps : List Scrap} (proper : ∀ scrap ∈ scraps, scrap.Proper) :
    10 ∉ scrapsText scraps := by
  intro member
  obtain ⟨scrap, among, found⟩ := List.mem_flatMap.mp member
  exact Scrap.newline_not_mem (proper scrap among) found

theorem newline_not_mem_join {separator : Text} (inLine : 10 ∉ separator) {texts : List Text}
    (all : ∀ text ∈ texts, 10 ∉ text) : 10 ∉ Text.join separator texts := by
  fun_induction Text.join separator texts with
  | case1 => exact List.not_mem_nil
  | case2 last => exact all last (List.mem_singleton_self _)
  | case3 first second rest ih =>
    obtain ⟨isFirst, others⟩ := List.forall_mem_cons.mp all
    rw [List.mem_append, List.mem_append]
    rintro ((here | between) | later)
    · exact isFirst here
    · exact inLine between
    · exact ih others later

/-! ### Operands -/

/-- What is behind the blank of an operand starts with a scrap, which is no colon. -/
structure Leads (scrap : Scrap) (more : Text) : Prop where
  proper : scrap.Proper
  visible : scrap.isGap = false
  word : ∃ word, scrap.word? = some word ∧ word ≠ (.symbol, Text.ofString ":")
  stops : ∀ behind, scrap.Stops (chars (more ++ 10 :: behind))

/-- A scrap that is no blank stops at the end of a line, and at a blank. -/
theorem stops_of_newline (scrap : Scrap) (behind : Text) :
    scrap.Stops (chars ([] ++ 10 :: behind)) := by
  have newline : chars ([] ++ 10 :: behind) = '\n' :: chars behind :=
    Text.chars_ofChars_append ['\n'] behind
  rw [newline]
  exact scrap.stops_at_newline _

theorem stops_of_blank {scrap : Scrap} (visible : scrap.isGap = false) (rest behind : Text) :
    scrap.Stops (chars (32 :: rest ++ 10 :: behind)) := by
  have blank : chars (32 :: rest ++ 10 :: behind) = ' ' :: chars (rest ++ 10 :: behind) :=
    Text.chars_ofChars_append [' '] _
  rw [blank]
  refine ⟨fun _ => ?_, fun isGap => by cases isGap.symm.trans visible⟩
  rintro _ ⟨⟩
  exact Scrap.isIdentifierChar_of_isLineBlank (by decide)

theorem leads_word (text : Text) {more : Text} (isWord : isWord (chars text) = true)
    (follows : more = [] ∨ ∃ rest, more = 32 :: rest) : Leads (.word text) more where
  proper := isWord
  visible := rfl
  word := ⟨_, rfl, by simp⟩
  stops behind := by
    rcases follows with rfl | ⟨rest, rfl⟩
    · exact stops_of_newline _ behind
    · exact stops_of_blank rfl rest behind

theorem leads_quoted (text : Text) : Leads (.quoted text) [] where
  proper := trivial
  visible := rfl
  word := ⟨_, rfl, by simp⟩
  stops := stops_of_newline _

theorem leads_numeral {text : Text} (isNumeral : isNumeral (chars text) = true) :
    Leads (.numeral text) [] where
  proper := isNumeral
  visible := rfl
  word := ⟨_, rfl, by simp⟩
  stops := stops_of_newline _

theorem leads_numberScrap (layout : Number.Layout) (value : Float) :
    Leads (numberScrap layout value) [] := by
  have proper := (neat_numberScrap layout value).proper (numberScrap layout value) (by simp)
  cases isExact : Number.exact value with
  | finite negative significand exponent =>
    have same : numberScrap layout value = .numeral (layout.write value) := by
      rw [numberScrap, isExact]
    rw [same] at proper ⊢
    exact leads_numeral proper
  | notANumber | infinite _ =>
    have same : numberScrap layout value = .word (layout.write value) := by
      rw [numberScrap, isExact]
    rw [same] at proper ⊢
    exact leads_word _ proper (.inl rfl)

theorem leads_sign (more : Text) : Leads (.symbol '@') more where
  proper := rfl
  visible := rfl
  word := ⟨_, rfl, by decide⟩
  stops behind := by
    refine ⟨fun isInk => ?_, fun isGap => ?_⟩
    · cases isInk
    · cases isGap

end Assembly

/-- No parameter of a function of a program has a line break. -/
def ProgramOf.InLine (program : Snapshot) : Prop :=
  ∀ item ∈ program.items.toList, ∀ declaration ∈ item.declaration?,
    ∀ param ∈ declaration.params, 10 ∉ param

namespace Assembly

theorem newline_not_mem_labelName (address : Int64) : 10 ∉ labelName address :=
  newline_not_mem_of_identifierChars (isIdentifierChar_of_isWord (isWord_labelName address))

theorem newline_not_mem_constructs (kind : ConstructKind) : 10 ∉ kind.name := by
  cases kind with
  | unknown beyond =>
    have digits : 10 ∉ Text.ofNat (4 + beyond.val) :=
      newline_not_mem_of_isDigit Text.isDigit_of_mem_ofNat
    unfold ConstructKind.name
    simp only [List.mem_append, not_or]
    exact ⟨⟨by decide, digits⟩, by decide⟩
  | object | array | boolean | number => decide

/-- A declaration stays on its line if its parameters do. -/
theorem newline_not_mem_declarationText {name : Text} {declaration : Declaration}
    (inLine : 10 ∉ name) (params : ∀ param ∈ declaration.params, 10 ∉ param) :
    10 ∉ declarationText name declaration := by
  have joined := newline_not_mem_join (show 10 ∉ (", " : Text) by decide) params
  have label := newline_not_mem_labelName declaration.entry
  have constructs : 10 ∉ (if declaration.constructs = .object then []
      else 32 :: declaration.constructs.name : Text) := by
    split
    · exact List.not_mem_nil
    · simp [newline_not_mem_constructs]
  unfold declarationText
  simp only [List.mem_append, not_or]
  exact ⟨⟨⟨⟨⟨inLine, by decide⟩, joined⟩, by decide⟩, label⟩, constructs⟩

theorem newline_not_mem_of_isIdentifier {text : Text} (identifier : isIdentifier text = true) :
    10 ∉ text :=
  newline_not_mem_of_identifierChars
    (isIdentifierChar_of_isWord (isWord_of_isIdentifier identifier))

theorem newline_not_mem_functionText {printed : Printed} {declaration : Declaration}
    (identifiers : ∀ name ∈ printed.used, isIdentifier name = true)
    (params : ∀ param ∈ declaration.params, 10 ∉ param) (index : ℕ) :
    10 ∉ (functionText printed index declaration).2 := by
  cases found : printed.names.lookup index with
  | some name =>
    have member : name ∈ printed.used := List.mem_map_of_mem (mem_names_of_lookup found)
    rw [functionText_of_lookup found]
    exact newline_not_mem_of_isIdentifier (identifiers name member)
  | none =>
    by_cases unnamed : declaration.name = []
    · rw [functionText_of_unnamed found unnamed]
      exact newline_not_mem_declarationText List.not_mem_nil params
    · rw [functionText_of_new found unnamed]
      exact newline_not_mem_declarationText
        (newline_not_mem_of_isIdentifier (isIdentifier_freshName printed.used _)) params

/-- An operand starts with a scrap, and stays on its line if parameters and names do. -/
structure Operand (program : Snapshot) (printed : Printed) (scrap : Scrap) (more : Text) :
    Prop where
  leads : Leads scrap more
  inLine : program.InLine → (∀ name ∈ printed.used, isIdentifier name = true) → 10 ∉ more

variable {program : Snapshot} {printed after : Printed}

theorem operand_alone {scrap : Scrap} (leads : Leads scrap []) :
    Operand program printed scrap [] :=
  ⟨leads, fun _ _ => List.not_mem_nil⟩

theorem exists_operand_of_literalText {datum : Datum ℕ} {text : Text}
    (prints : literalText program printed datum = .ok (after, text)) :
    ∃ scrap more, text = scrap.text ++ more ∧ Operand program printed scrap more := by
  have alone {scrap : Scrap} (leads : Leads scrap []) :
      ∃ found more, scrap.text = found.text ++ more ∧ Operand program printed found more :=
    ⟨scrap, [], (List.append_nil _).symm, operand_alone leads⟩
  unfold literalText at prints
  split at prints
  · cases prints
    exact alone (leads_word "null" (by decide) (.inl rfl))
  · cases prints
    rw [← text_numberScrap]
    exact alone (leads_numberScrap .listing datum.number)
  · cases prints
    exact alone (leads_quoted datum.text)
  · cases prints
    exact alone (leads_quoted datum.text)
  · cases prints
    have words : ∀ value : Bool, isWord (chars (if value then "true" else "false")) = true := by
      decide
    exact alone (leads_word _ (words datum.bool) (.inl rfl))
  · case h_6 isObject =>
    split at prints
    · case h_1 index declaration refers found =>
      cases prints
      refine ⟨.word "func", 32 :: (functionText printed index declaration).2, rfl,
        leads_word _ (by decide) (.inr ⟨_, rfl⟩), fun inLine identifiers => ?_⟩
      obtain ⟨item, isItem, isDeclaration⟩ := Option.bind_eq_some_iff.mp found
      obtain ⟨number, -, present⟩ := Option.bind_eq_some_iff.mp isItem
      have among : item ∈ program.items.toList :=
        Array.mem_toList_iff.mpr (Array.mem_of_getElem? present)
      simp [newline_not_mem_functionText identifiers (inLine item among declaration isDeclaration)]
    · cases prints
      refine ⟨.word "null", 32 :: (Text.ofString "; " ++ datum.shown), rfl,
        leads_word _ (by decide) (.inr ⟨_, rfl⟩), fun _ _ => ?_⟩
      have shown : datum.shown = "[ object Object ]" := by
        rw [Datum.shown, Datum.shown?, isObject]
      rw [shown]
      decide
  · cases prints

/-- An instruction is printed as its opcode, and maybe an operand. -/
theorem exists_operand_of_instructionText {pc : ℕ} {instruction : Instruction ℕ} {text : Text}
    (prints : instructionText program printed pc instruction = .ok (after, text)) :
    text = instruction.opcode.name ∨ ∃ scrap more,
      text = instruction.opcode.name ++ 32 :: (scrap.text ++ more) ∧
        Operand program printed scrap more := by
  have alone {scrap : Scrap} (leads : Leads scrap []) :
      ∃ found more, instruction.opcode.name ++ 32 :: scrap.text =
        instruction.opcode.name ++ 32 :: (found.text ++ more) ∧
          Operand program printed found more :=
    ⟨scrap, [], by rw [List.append_nil], operand_alone leads⟩
  unfold instructionText at prints
  dsimp only at prints
  split at prints
  · cases prints
    exact .inl rfl
  · cases prints
    refine .inr ?_
    unfold nameText
    split
    · case isTrue isName =>
      exact alone (leads_word _ (isWord_of_isIdentifier isName.2) (.inl rfl))
    · exact alone (leads_quoted instruction.datum.text)
  · cases prints
    refine .inr ?_
    rw [← text_numberScrap]
    exact alone (leads_numberScrap .value instruction.datum.number)
  · split at prints
    · cases prints
      refine .inr ⟨.symbol '@', labelName (ProgramOf.jumpTarget pc instruction), ?_,
        leads_sign _, fun _ _ => newline_not_mem_labelName _⟩
      rw [List.append_assoc]
      rfl
    · cases prints
      exact .inr (alone (leads_numeral (isNumeral_ofInt _)))
  · obtain ⟨⟨behind, operand⟩, shown, isText⟩ := bind_eq_ok_iff.mp prints
    cases isText
    obtain ⟨scrap, more, rfl, isOperand⟩ := exists_operand_of_literalText shown
    exact .inr ⟨scrap, more, rfl, isOperand⟩

/-! ### Parts of a source -/

/-- How many instructions the lines of a source hold. -/
def instructionsIn (source : Text) : ℕ := (codeLines (linesOf source)).length

theorem length_codeLines_append (lines others : List (List Token)) :
    (codeLines (lines ++ others)).length =
      (codeLines lines).length + (codeLines others).length := by
  unfold codeLines
  rw [List.filter_append, List.length_append]

/-- At the end of the input there is no instruction. -/
theorem codeLines_linesFrom_nil (position : Position) :
    codeLines (linesFrom position (chars [])) = [] := by
  unfold linesFrom tokensFrom
  rw [show chars [] = [] from rfl, lexemes]
  rfl

/-- What has an end has lines of its own, whatever follows. -/
theorem exists_linesOf {front : Text} (ended : Ended front) : ∃ lines middle,
    (codeLines lines).length = instructionsIn front ∧
      ∀ behind, linesOf (front ++ behind) = lines ++ linesFrom middle (chars behind) := by
  obtain ⟨lines, middle, isLines⟩ := exists_lines_of_ended ended {}
  refine ⟨lines, middle, ?_, isLines⟩
  have whole := isLines []
  rw [List.append_nil] at whole
  rw [instructionsIn, linesOf_eq, whole, length_codeLines_append, codeLines_linesFrom_nil]
  rfl

/-- Scraps behind something that has `Ended` start a line of the source. -/
theorem exists_row {front : Text} (ended : Ended front) {scraps : List Scrap}
    (neat : Row.Neat scraps) {rest : Text}
    (stops : ∀ last ∈ scraps.getLast?, last.Stops (chars rest)) :
    ∃ rows row others next more,
      linesOf (front ++ (scrapsText scraps ++ rest)) = rows ++ row :: others ∧
      (codeLines rows).length = instructionsIn front ∧
      row.map Token.word = Row.words scraps ++ next :: more ∧
      ∀ behind, rest = 10 :: behind → next = (.endOfLine, []) := by
  obtain ⟨rows, middle, count, isRows⟩ := exists_linesOf ended
  obtain ⟨row, others, next, more, isRow, words, atEnd⟩ := exists_line_of_scraps neat stops middle
  exact ⟨rows, row, others, next, more, by rw [isRows, isRow], count, words, atEnd⟩

/-- A text is made of whole lines, which hold so many instructions wherever they stand. -/
def Spans (text : Text) (count : ℕ) : Prop :=
  ∀ position, ∃ lines middle, (codeLines lines).length = count ∧ ∀ behind,
    linesFrom position (chars (text ++ behind)) = lines ++ linesFrom middle (chars behind)

theorem Spans.nil : Spans [] 0 := fun position => ⟨[], position, rfl, fun _ => rfl⟩

theorem Spans.append {first second : Text} {count more : ℕ} (spans : Spans first count)
    (others : Spans second more) : Spans (first ++ second) (count + more) := by
  intro position
  obtain ⟨lines, middle, length, isLines⟩ := spans position
  obtain ⟨later, last, laterLength, isLater⟩ := others middle
  refine ⟨lines ++ later, last, ?_, fun behind => ?_⟩
  · rw [length_codeLines_append, length, laterLength]
  · rw [List.append_assoc, isLines, isLater, List.append_assoc]

theorem instructionsIn_append {front text : Text} {count : ℕ} (ended : Ended front)
    (spans : Spans text count) : instructionsIn (front ++ text) = instructionsIn front + count := by
  obtain ⟨rows, middle, length, isRows⟩ := exists_linesOf ended
  obtain ⟨lines, last, more, isLines⟩ := spans middle
  have whole := isLines []
  rw [List.append_nil] at whole
  rw [instructionsIn, isRows, whole, length_codeLines_append, length_codeLines_append, length, more,
    codeLines_linesFrom_nil]
  rfl

/-- A line `Spans` an instruction or none. -/
theorem spans_line {text : Text} {opcode? : Option Opcode} (inLine : 10 ∉ text)
    (holds : ∀ position behind, ∃ line others,
      linesFrom position (chars (text ++ 10 :: behind)) = line :: others ∧
        opcodeOf? line = opcode?) : Spans (text ++ [10]) opcode?.toList.length := by
  intro position
  obtain ⟨line, middle, isLine⟩ := exists_line_of_inLine inLine position
  obtain ⟨other, others, isOther, isOpcode⟩ := holds position []
  rw [isLine] at isOther
  obtain ⟨rfl, -⟩ := List.cons.inj isOther
  refine ⟨[line], middle, ?_, fun behind => ?_⟩
  · rw [codeLines, List.filter_singleton, isOpcode]
    cases opcode? <;> rfl
  · rw [List.append_assoc]
    exact isLine behind

/-! ### Lines of a listing -/

theorem spans_labelLine (labels : List Int64) (address : Int64) :
    Spans (labelLine labels address) 0 := by
  unfold labelLine
  split
  · have neat : Row.Neat [.word (labelName address), .symbol ':'] :=
      .word (isWord_labelName address) rfl (.symbol (by decide) .nil)
    have isText : labelName address ++ Text.ofString ":\n" =
        scrapsText [.word (labelName address), .symbol ':'] ++ [10] := by
      rw [scrapsText_cons, List.append_assoc]
      rfl
    rw [isText]
    have holds (position : Position) (behind : Text) : ∃ line others,
        linesFrom position (chars (scrapsText [.word (labelName address), .symbol ':'] ++
          10 :: behind)) = line :: others ∧ opcodeOf? line = none := by
      obtain ⟨line, others, next, more, isLine, words, atEnd⟩ := exists_line_of_scraps neat
        (fun last _ => stops_of_newline last behind) position
      rw [atEnd behind rfl] at words
      exact ⟨line, others, isLine, opcodeOf?_of_label words (.inl rfl)⟩
    exact spans_line (newline_not_mem_scrapsText neat.proper) holds
  · exact .nil

theorem spans_directiveLine {word : Text} (isWord : isWord (chars word) = true)
    (dot : word.head? = some 46) (bound usual : Int64) :
    Spans (directiveLine word bound usual) 0 := by
  unfold directiveLine
  split
  · exact .nil
  · have neat : Row.Neat [.word word, .blank ' ', .word (labelName bound)] :=
      .word isWord rfl (.space rfl (.word (isWord_labelName bound) rfl .nil))
    have isText : word ++ 32 :: labelName bound ++ Text.ofString "\n" =
        scrapsText [.word word, .blank ' ', .word (labelName bound)] ++ [10] := by
      simp [scrapsText, Scrap.text]
      rfl
    rw [isText]
    have holds (position : Position) (behind : Text) : ∃ line others,
        linesFrom position (chars (scrapsText [.word word, .blank ' ', .word (labelName bound)] ++
          10 :: behind)) = line :: others ∧ opcodeOf? line = none := by
      obtain ⟨line, others, next, more, isLine, words, -⟩ := exists_line_of_scraps neat
        (fun last _ => stops_of_newline last behind) position
      exact ⟨line, others, isLine,
        (opcodeOf?_of_words words (by simp)).trans (ofName?_of_dot dot)⟩
    exact spans_line (newline_not_mem_scrapsText neat.proper) holds

/-- The line of an instruction holds it. -/
theorem exists_instructionLine {program : Snapshot} {printed after : Printed} {pc : ℕ}
    {instruction : Instruction ℕ} {text : Text} (valid : instruction.opcode ∈ Opcode.valid)
    (prints : instructionText program printed pc instruction = .ok (after, text))
    (position : Position) (behind : Text) :
    ∃ line others, linesFrom position (chars (9 :: text ++ 10 :: behind)) = line :: others ∧
      opcodeOf? line = some instruction.opcode := by
  have words : ∀ opcode ∈ Opcode.valid, isWord (chars opcode.name) = true := by decide
  have isName := words instruction.opcode valid
  have named := Opcode.ofName?_name valid
  rcases exists_operand_of_instructionText prints with rfl | ⟨scrap, more, rfl, leads, -⟩
  · have neat : Row.Neat [.blank '\t', .word instruction.opcode.name] :=
      .blank (by decide) rfl (.word isName rfl .nil)
    have isText : scrapsText [.blank '\t', .word instruction.opcode.name] =
        9 :: instruction.opcode.name := by
      rw [scrapsText_cons, scrapsText_cons]
      exact congrArg (9 :: ·) (List.append_nil _)
    obtain ⟨line, others, next, more, isLine, words, atEnd⟩ := exists_line_of_scraps neat
      (fun last _ => stops_of_newline last behind) position
    rw [atEnd behind rfl] at words
    rw [isText] at isLine
    exact ⟨line, others, isLine, (opcodeOf?_of_words words (by simp)).trans named⟩
  · obtain ⟨word, isWord, other⟩ := leads.word
    have neat : Row.Neat [.blank '\t', .word instruction.opcode.name, .blank ' ', scrap] :=
      .blank (by decide) rfl (.word isName rfl (.space (by simp [leads.visible])
        (.cons leads.proper (by simp) .nil)))
    have isText : scrapsText [.blank '\t', .word instruction.opcode.name, .blank ' ', scrap] =
        9 :: (instruction.opcode.name ++ 32 :: scrap.text) := by
      rw [scrapsText_cons, scrapsText_cons, scrapsText_cons, scrapsText_cons]
      simp [scrapsText, Scrap.text]
      rfl
    have stops : ∀ last ∈ [Scrap.blank '\t', .word instruction.opcode.name, .blank ' ',
        scrap].getLast?, last.Stops (chars (more ++ 10 :: behind)) := by
      rintro _ ⟨⟩
      exact leads.stops behind
    obtain ⟨line, others, next, further, isLine, words, -⟩ :=
      exists_line_of_scraps neat stops position
    have isWords : Row.words [.blank '\t', .word instruction.opcode.name, .blank ' ', scrap] =
        [(.identifier, instruction.opcode.name), word] := by
      rw [Row.words_cons, Row.words_cons, Row.words_cons, Row.words_cons, isWord]
      rfl
    rw [isWords] at words
    refine ⟨line, others, ?_, (opcodeOf?_of_words words other).trans named⟩
    rw [← isLine, isText]
    simp

/-- It stays on its line if parameters and names do. -/
theorem newline_not_mem_instructionText {program : Snapshot} {printed after : Printed} {pc : ℕ}
    {instruction : Instruction ℕ} {text : Text} (valid : instruction.opcode ∈ Opcode.valid)
    (inLine : program.InLine) (identifiers : ∀ name ∈ printed.used, isIdentifier name = true)
    (prints : instructionText program printed pc instruction = .ok (after, text)) : 10 ∉ text := by
  have names : ∀ opcode ∈ Opcode.valid, 10 ∉ opcode.name := by decide
  rcases exists_operand_of_instructionText prints with rfl | ⟨scrap, more, rfl, operand⟩
  · exact names _ valid
  · simp [names _ valid, Scrap.newline_not_mem operand.leads.proper,
      operand.inLine inLine identifiers]

theorem spans_instruction {program : Snapshot} {printed after : Printed} {pc : ℕ}
    {instruction : Instruction ℕ} {text : Text} (valid : instruction.opcode ∈ Opcode.valid)
    (inLine : program.InLine) (identifiers : ∀ name ∈ printed.used, isIdentifier name = true)
    (prints : instructionText program printed pc instruction = .ok (after, text)) :
    Spans (9 :: text ++ [10]) 1 := by
  have within := newline_not_mem_instructionText valid inLine identifiers prints
  exact spans_line (by simp [within]) (exists_instructionLine valid prints)

end Assembly

/-! ### Places in a listing -/

open Assembly (labelLine directiveLine instructionLines instructionText numberedFrom printedBehind
  Ended Spans)

namespace ProgramOf

/-- What a listing has in front of an instruction and its label, by the lines of instructions. -/
def listedBefore (program : Snapshot) (lines : List Text) (pc : ℕ) : Text :=
  directiveLine ".entry" program.start 0 ++ directiveLine ".end" program.stop program.size ++
    (lines.take pc).flatten

/-- Where an instruction comes if a listing is assembled: behind all those listed before it. -/
def place (program : Snapshot) (lines : List Text) (pc : ℕ) : ℕ :=
  Assembly.instructionsIn (program.listedBefore lines pc)

variable {program : Snapshot} {lines : List Text} {pc : ℕ}

/-- Where a program `PrintsAs` lines, the line of an instruction is printed under names that are
identifiers. -/
theorem PrintsAs.exists_line (prints : program.PrintsAs lines)
    {instruction : Instruction ℕ} (found : program.code[pc]? = some instruction) :
    ∃ printed after text, (∀ name ∈ Assembly.Printed.used printed, Assembly.isIdentifier name) ∧
      instructionText program printed pc instruction = .ok (after, text) ∧
      lines[pc]? = some (labelLine (Assembly.targets program) (Int64.ofNat pc) ++
        (9 :: text ++ [10])) := by
  obtain ⟨after, text, shown, line⟩ := prints.exists_text found
  refine ⟨_, after, text, (Assembly.holds_printedBehind program _).identifiers, shown, ?_⟩
  rw [line, List.append_assoc]
  rfl

theorem listedBefore_succ {line : Text} (found : lines[pc]? = some line) :
    program.listedBefore lines (pc + 1) = program.listedBefore lines pc ++ line := by
  unfold listedBefore
  rw [List.take_add_one, found, List.flatten_append, List.append_assoc]
  simp

theorem exists_listedBefore {line : Text} {other : ℕ} (found : lines[pc]? = some line)
    (later : pc < other) : ∃ rest,
      program.listedBefore lines other = program.listedBefore lines pc ++ (line ++ rest) := by
  induction other, later using Nat.le_induction with
  | base => exact ⟨[], by rw [listedBefore_succ found, List.append_nil]⟩
  | succ other later ih =>
    obtain ⟨rest, isRest⟩ := ih
    cases there : lines[other]? with
    | none =>
      refine ⟨rest, ?_⟩
      rw [← isRest]
      unfold listedBefore
      rw [List.take_add_one, there, Option.toList_none, List.append_nil]
    | some next =>
      refine ⟨rest ++ next, ?_⟩
      rw [listedBefore_succ there, isRest]
      simp only [List.append_assoc]

theorem ended_labelLine (labels : List Int64) (address : Int64) :
    Ended (labelLine labels address) := by
  unfold labelLine
  split
  · exact .inr ⟨Assembly.labelName address ++ [58], (List.append_assoc _ _ _).symm⟩
  · exact .inl rfl

theorem ended_directiveLine (word : Text) (bound usual : Int64) :
    Ended (directiveLine word bound usual) := by
  unfold directiveLine
  split
  · exact .inl rfl
  · exact .inr ⟨_, rfl⟩

/-- What is listed before an instruction has `Ended`. -/
theorem ended_listedBefore (prints : program.PrintsAs lines) (pc : ℕ) :
    Ended (program.listedBefore lines pc) := by
  induction pc with
  | zero => exact ((ended_directiveLine _ _ _).append (ended_directiveLine _ _ _)).append (.inl rfl)
  | succ pc ih =>
    cases found : lines[pc]? with
    | none =>
      unfold listedBefore at ih ⊢
      rwa [List.take_add_one, found, Option.toList_none, List.append_nil]
    | some line =>
      have within := (List.getElem?_eq_some_iff.mp found).1
      rw [prints.length] at within
      obtain ⟨printed, after, text, -, -, isLine⟩ :=
        prints.exists_line (Array.getElem?_eq_getElem within)
      obtain rfl := Option.some.inj (found.symm.trans isLine)
      rw [listedBefore_succ found]
      exact ih.append ((ended_labelLine _ _).append (.inr ⟨9 :: text, rfl⟩))

theorem place_zero (program : Snapshot) (lines : List Text) : program.place lines 0 = 0 := by
  have entry : Spans (directiveLine ".entry" program.start 0) 0 :=
    Assembly.spans_directiveLine (by decide) rfl _ _
  have stop : Spans (directiveLine ".end" program.stop program.size) 0 :=
    Assembly.spans_directiveLine (by decide) rfl _ _
  unfold place listedBefore
  rw [List.take_zero, List.flatten_nil, List.append_nil]
  exact Assembly.instructionsIn_append (.inl rfl) (entry.append stop) |>.trans
    (congrArg List.length (Assembly.codeLines_linesFrom_nil {}))

/-- Without line breaks in parameters, which are then `InLine`, every instruction keeps its place.
-/
theorem place_eq (prints : program.PrintsAs lines) (inLine : program.InLine)
    (valid : ∀ instruction ∈ program.code.toList, instruction.opcode ∈ Opcode.valid)
    (within : pc ≤ program.code.size) : program.place lines pc = pc := by
  induction pc with
  | zero => exact place_zero program lines
  | succ pc ih =>
    have present := Array.getElem?_eq_getElem within
    obtain ⟨printed, after, text, identifiers, shown, isLine⟩ := prints.exists_line present
    have isValid := valid _ (Array.mem_toList_iff.mpr (Array.mem_of_getElem? present))
    have spans := (Assembly.spans_labelLine (Assembly.targets program) (Int64.ofNat pc)).append
      (Assembly.spans_instruction isValid inLine identifiers shown)
    have place := ih (Nat.le_of_lt within)
    unfold ProgramOf.place at place ⊢
    rw [listedBefore_succ isLine,
      Assembly.instructionsIn_append (ended_listedBefore prints pc) spans, place]

end ProgramOf

end ScriptEngine
