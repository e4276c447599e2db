/-
This file lays a listing out in rows of scraps. The rows of a program are neat, so that the lexer
cuts them as they were meant; and the listing of a program is the text of the rows of the program
as it is relisted. A function is spelt out where it is first pushed and named from then on, so a
row depends on how many functions were met before it.
-/

import Mathlib
import ScriptEngine.Proofs.Assembly.Relisting
import ScriptEngine.Proofs.Number.Layout

namespace ScriptEngine

open Text (chars ofChars isDecimalDigit asciiChars)

namespace Assembly

open Number (Layout Spelling)
open Number.Decimal (isDigit)

/-! ### Numbers and labels -/

theorem numberLength_digits {digits : Text} (all : ∀ byte ∈ digits, isDigit byte = true)
    (rest : List Char) :
    numberLength false (asciiChars digits ++ rest) = digits.length + numberLength false rest := by
  induction digits with
  | nil => exact (Nat.zero_add _).symm
  | cons byte others ih =>
    obtain ⟨first, later⟩ := List.forall_mem_cons.mp all
    have digit := isIdentifierChar_digit byte first
    have letter : ¬ (Char.ofNat byte.toNat = 'e' ∨ Char.ofNat byte.toNat = 'E') := by
      rintro (same | same) <;>
      · rw [same] at digit
        exact absurd digit (by decide)
    rw [asciiChars, List.map_cons, List.cons_append, numberLength, if_neg letter,
      if_pos (Or.inl digit), List.length_cons]
    have := ih later
    unfold asciiChars at this
    omega

theorem asciiChars_append (first second : Text) :
    asciiChars (first ++ second) = asciiChars first ++ asciiChars second :=
  List.map_append

theorem numberLength_powerText {power : Option (Bool × Text)}
    (proper : ∀ negative digits, power = some (negative, digits) →
      digits ≠ [] ∧ ∀ byte ∈ digits, isDigit byte = true) :
    numberLength false (asciiChars (Spelling.powerText power)) =
      (Spelling.powerText power).length := by
  cases power with
  | none => rfl
  | some parts =>
    obtain ⟨negative, digits⟩ := parts
    have whole := numberLength_digits (proper negative digits rfl).2 []
    rw [List.append_nil] at whole
    cases negative <;>
    · show numberLength false (asciiChars digits) + 1 + 1 = digits.length + 1 + 1
      rw [whole]
      rfl

theorem numberLength_spelling {spelling : Spelling} (proper : spelling.Proper) {digits : Text}
    (all : ∀ byte ∈ digits, isDigit byte = true) :
    numberLength false (asciiChars (digits ++ (Spelling.fractionText spelling.fraction ++
        Spelling.powerText spelling.power))) =
      (digits ++ (Spelling.fractionText spelling.fraction ++
        Spelling.powerText spelling.power)).length := by
  have power := numberLength_powerText proper.power
  have behind : numberLength false (asciiChars (Spelling.fractionText spelling.fraction ++
      Spelling.powerText spelling.power)) =
      (Spelling.fractionText spelling.fraction ++ Spelling.powerText spelling.power).length := by
    unfold Spelling.fractionText
    split
    · exact power
    · show numberLength false (asciiChars (spelling.fraction ++ _)) + 1 = _
      rw [asciiChars_append, numberLength_digits proper.fraction, power, List.cons_append,
        List.length_cons, List.length_append]
  rw [asciiChars_append, numberLength_digits all, behind, ← List.length_append]

theorem ascii_spelling {spelling : Spelling} (proper : spelling.Proper) :
    ∀ byte ∈ spelling.text, byte < 128 := by
  have digits : ∀ {bytes : Text}, (∀ byte ∈ bytes, isDigit byte = true) →
      ∀ byte ∈ bytes, byte < 128 := fun all byte member => lt_of_isDigit (all byte member)
  have fraction : ∀ byte ∈ Spelling.fractionText spelling.fraction, byte < 128 := by
    unfold Spelling.fractionText
    split
    · exact List.forall_mem_nil _
    · exact List.forall_mem_cons.mpr ⟨by decide, digits proper.fraction⟩
  have power : ∀ byte ∈ Spelling.powerText spelling.power, byte < 128 := by
    cases isPower : spelling.power with
    | none => exact List.forall_mem_nil _
    | some parts =>
      obtain ⟨negative, exponent⟩ := parts
      have last := digits (proper.power negative exponent isPower).2
      cases negative <;>
      · exact List.forall_mem_cons.mpr ⟨by decide, List.forall_mem_cons.mpr ⟨by decide, last⟩⟩
  exact List.forall_mem_append.mpr
    ⟨digits proper.whole, List.forall_mem_append.mpr ⟨fraction, power⟩⟩

/-- A number as a layout spells it is a single number, `isNumeral`. -/
theorem isNumeral_spelling {spelling : Spelling} (proper : spelling.Proper) (negative : Bool) :
    isNumeral (chars (Layout.withSign negative spelling.text)) = true := by
  have ascii := ascii_spelling proper
  obtain ⟨byte, rest, split⟩ := List.exists_cons_of_ne_nil proper.filled
  obtain ⟨first, others⟩ := List.forall_mem_cons.mp (split ▸ proper.whole)
  have digit := isIdentifierChar_digit byte first
  have starts : spelling.text = byte :: (rest ++ (Spelling.fractionText spelling.fraction ++
      Spelling.powerText spelling.power)) := by
    rw [Spelling.text, split, List.cons_append]
  cases negative with
  | false =>
    have whole := numberLength_spelling proper others
    rw [Layout.withSign, if_neg (by decide), Text.chars_of_ascii ascii, starts]
    show ((isDecimalDigit (Char.ofNat byte.toNat) || _) && decide
      (numberLength false (asciiChars _) = (asciiChars _).length)) = true
    rw [digit, whole, asciiChars, List.length_map, Bool.true_or, Bool.true_and, decide_eq_true rfl]
  | true =>
    have whole := numberLength_spelling proper proper.whole
    have signed : ∀ byte ∈ 45 :: spelling.text, byte < 128 :=
      List.forall_mem_cons.mpr ⟨by decide, ascii⟩
    have unsigned : startsUnsigned (asciiChars spelling.text) = true := by
      rw [starts, asciiChars, List.map_cons, startsUnsigned, digit, Bool.true_or]
    have length : (asciiChars spelling.text).length = spelling.text.length := List.length_map _
    rw [Layout.withSign, if_pos rfl, Text.chars_of_ascii signed]
    show isNumeral ('-' :: asciiChars spelling.text) = true
    rw [isNumeral, unsigned, length,
      show numberLength false (asciiChars spelling.text) = _ from whole]
    simp [Spelling.text]

theorem isNumeral_ofInt (value : ℤ) : isNumeral (chars (Text.ofInt value)) = true := by
  have proper : ∀ number, Spelling.Proper { whole := Text.ofNat number } := fun number =>
    ⟨Text.isDigit_of_mem_ofNat, Text.ofNat_ne_nil number, List.forall_mem_nil _,
      fun _ _ none => nomatch none⟩
  have text : ∀ number, Spelling.text { whole := Text.ofNat number } = Text.ofNat number :=
    fun number => List.append_nil _
  cases value with
  | ofNat number =>
    have numeral := isNumeral_spelling (proper number) false
    rwa [text] at numeral
  | negSucc below =>
    have numeral := isNumeral_spelling (proper (below + 1)) true
    rwa [text] at numeral

theorem isNumeral_ofNat (number : ℕ) : isNumeral (chars (Text.ofNat number)) = true :=
  isNumeral_ofInt number

theorem isWord_labelName (address : Int64) : isWord (chars (labelName address)) = true := by
  have bytes : ∀ byte ∈ Text.ofInt address.toInt, byte = 45 ∨ isDigit byte = true := by
    cases address.toInt with
    | ofNat number => exact fun byte member => .inr (Text.isDigit_of_mem_ofNat byte member)
    | negSucc below =>
      exact List.forall_mem_cons.mpr
        ⟨.inl rfl, fun byte member => .inr (Text.isDigit_of_mem_ofNat byte member)⟩
  have ascii : ∀ byte ∈ labelName address, byte < 128 := by
    refine List.forall_mem_cons.mpr ⟨by decide, fun byte member => ?_⟩
    rcases bytes byte member with rfl | digit
    · decide
    · exact lt_of_isDigit digit
  have all : ∀ char ∈ asciiChars (labelName address), isIdentifierChar char = true := by
    refine List.forall_mem_map.mpr (List.forall_mem_cons.mpr ⟨by decide, ?_⟩)
    intro byte member
    rcases bytes byte member with rfl | digit
    · decide
    · exact isIdentifierChar_of_isDecimalDigit (isIdentifierChar_digit byte digit)
  have starts : asciiChars (labelName address) = 'L' :: asciiChars (Text.ofInt address.toInt) := rfl
  rw [Text.chars_of_ascii ascii, starts, isWord, ← starts, List.all_eq_true.mpr all,
    show isDecimalDigit 'L' = false by decide]
  rfl

/-! ### The rows of a program -/

/-- The parameters of a function, with commas between them. -/
def parameterScraps : List Text → List Scrap
  | [] => []
  | first :: others =>
    .word first :: others.flatMap fun param => [.symbol ',', .blank ' ', .word param]

/-- What a function constructs. A kind without a name of its own has its code in brackets. -/
def kindScraps : ConstructKind → List Scrap
  | .unknown beyond =>
    [.word "construct", .symbol '(', .numeral (Text.ofNat (4 + beyond.val)), .symbol ')']
  | kind => [.word kind.name]

/-- What a function constructs, if that is worth saying. -/
def constructScraps (kind : ConstructKind) : List Scrap :=
  if kind = .object then [] else .blank ' ' :: kindScraps kind

/-- A function in full. -/
def declarationScraps (declaration : Declaration) : List Scrap :=
  (if declaration.name = [] then [] else [.word declaration.name]) ++
    .symbol '(' :: (parameterScraps declaration.params ++
      .symbol ')' :: .blank ' ' :: .symbol '@' :: .word (labelName declaration.entry) ::
        constructScraps declaration.constructs)

/-- A function behind the word `func`: in full if it is the next to be met. -/
def functionScraps (met index : ℕ) (declaration : Declaration) : List Scrap :=
  if index = met then declarationScraps declaration else [.word declaration.name]

/-- A number; what is not finite is a word. -/
def numberScrap (layout : Layout) (value : Float) : Scrap :=
  match Number.exact value with
  | .finite .. => .numeral (layout.write value)
  | _ => .word (layout.write value)

/-- The operand of a push. -/
def literalScraps (program : Program) (met : ℕ) (datum : Datum ℕ) : List Scrap :=
  match datum.kind with
  | .number => [numberScrap .listing datum.number]
  | .text | .name => [.quoted datum.text]
  | .bool => [.word (if datum.bool then "true" else "false")]
  | .object =>
    match datum.object.bind fun index => program.items[index]?.map (index, ·) with
    | some (index, declaration) =>
      .word "func" :: .blank ' ' :: functionScraps met index declaration
    | none => [.word "null"]
  | .null | .unknown _ => [.word "null"]

/-- The operand of an instruction with a blank in front, if it takes one. -/
def operandScraps (program : Program) (met pc : ℕ) (instruction : Instruction ℕ) : List Scrap :=
  match instruction.opcode.operandClass with
  | .none => []
  | .name =>
    [.blank ' ', if instruction.datum.kind = .name then .word instruction.datum.text
      else .quoted instruction.datum.text]
  | .count => [.blank ' ', numberScrap .value instruction.datum.number]
  | .jump =>
    let target := ProgramOf.jumpTarget pc instruction
    if labelled program.size target then [.blank ' ', .symbol '@', .word (labelName target)]
    else [.blank ' ', .numeral (Text.ofInt instruction.jump.toInt)]
  | .literal => .blank ' ' :: literalScraps program met instruction.datum

/-- The row of an instruction, behind which so many functions were met. -/
def instructionRow (program : Program) (met pc : ℕ) (instruction : Instruction ℕ) : Row :=
  .blank '\t' :: .word instruction.opcode.name :: operandScraps program met pc instruction

/-- The row that defines the label of an address, if it has one. -/
def labelRows (labels : List Int64) (address : Int64) : List Row :=
  if labels.contains address then [[.word (labelName address), .symbol ':']] else []

/-- How many functions are met behind an instruction. -/
def metAfter (met : ℕ) (instruction : Instruction ℕ) : ℕ :=
  match instruction.function? with
  | none => met
  | some use => max met (use + 1)

/-- The rows of instructions: for each its `labelRows` and its `instructionRow`. -/
def bodyRows (program : Program) (labels : List Int64) :
    (met : ℕ) → List (ℕ × Instruction ℕ) → List Row
  | _, [] => []
  | met, (pc, instruction) :: rest =>
    labelRows labels (Int64.ofNat pc) ++ instructionRow program met pc instruction ::
      bodyRows program labels (metAfter met instruction) rest

/-- The row of a directive, where a bound is not the usual one. -/
def directiveRows (word : Text) (bound usual : Int64) : List Row :=
  if bound = usual then [] else [[.word word, .blank ' ', .word (labelName bound)]]

/-- The rows of a program: its `directiveRows`, its `bodyRows`, and the label behind them. -/
def rows (program : Program) : List Row :=
  let labels := targets program.snapshot
  directiveRows ".entry" program.start 0 ++ directiveRows ".end" program.stop program.size ++
    bodyRows program labels 0 (numbered program.snapshot) ++ labelRows labels program.size

/-! ### Neatness -/

end Assembly

/-- The parameters of a function are words. -/
def Declaration.Worded (declaration : Declaration) : Prop :=
  ∀ param ∈ declaration.params, Assembly.isWord (chars param) = true

namespace Assembly

namespace Row.Neat

variable {row : Row}

theorem nil : Neat [] := ⟨List.forall_mem_nil _, .nil⟩

theorem cons {scrap : Scrap} (proper : scrap.Proper)
    (clear : ∀ next ∈ row.head?, scrap.clear next = true) (neat : Neat row) :
    Neat (scrap :: row) :=
  ⟨List.forall_mem_cons.mpr ⟨proper, neat.proper⟩, neat.clear.cons clear⟩

theorem symbol {char : Char} (isSymbol : isSymbolChar char = true) (neat : Neat row) :
    Neat (.symbol char :: row) :=
  cons isSymbol (fun next _ => by cases next <;> rfl) neat

theorem quoted {text : Text} (neat : Neat row) : Neat (.quoted text :: row) :=
  cons trivial (fun next _ => by cases next <;> rfl) neat

theorem blank {char : Char} (isBlank : isLineBlank char = true)
    (behind : row.head?.any Scrap.isGap = false) (neat : Neat row) : Neat (.blank char :: row) := by
  refine cons isBlank (fun next isNext => ?_) neat
  rw [isNext] at behind
  cases next <;> first | rfl | cases behind

theorem space (behind : row.head?.any Scrap.isGap = false) (neat : Neat row) :
    Neat (.blank ' ' :: row) :=
  blank (by decide) behind neat

theorem word {text : Text} (isWord : isWord (chars text) = true)
    (behind : row.head?.any Scrap.isInk = false) (neat : Neat row) : Neat (.word text :: row) := by
  refine cons isWord (fun next isNext => ?_) neat
  rw [isNext] at behind
  cases next <;> first | rfl | cases behind

theorem numeral {text : Text} (isNumeral : isNumeral (chars text) = true)
    (behind : row.head?.any Scrap.isInk = false) (neat : Neat row) :
    Neat (.numeral text :: row) := by
  refine cons isNumeral (fun next isNext => ?_) neat
  rw [isNext] at behind
  cases next <;> first | rfl | cases behind

theorem parameters {params : List Text}
    (words : ∀ param ∈ params, Assembly.isWord (chars param) = true)
    (closed : Neat (.symbol ')' :: row)) : Neat (parameterScraps params ++ .symbol ')' :: row) := by
  have behind : ∀ others : List Text, (∀ param ∈ others, Assembly.isWord (chars param) = true) →
      ((others.flatMap fun param => [.symbol ',', .blank ' ', .word param]) ++
        .symbol ')' :: row : List Scrap).head?.any Scrap.isInk = false ∧
      Neat ((others.flatMap fun param => [.symbol ',', .blank ' ', .word param]) ++
        .symbol ')' :: row) := by
    intro others
    induction others with
    | nil => exact fun _ => ⟨rfl, closed⟩
    | cons param rest ih =>
      intro words
      obtain ⟨first, later⟩ := List.forall_mem_cons.mp words
      obtain ⟨separate, neat⟩ := ih later
      exact ⟨rfl, symbol (by decide) (space rfl (word first separate neat))⟩
  cases params with
  | nil => exact closed
  | cons first others =>
    obtain ⟨isFirst, later⟩ := List.forall_mem_cons.mp words
    exact word isFirst (behind others later).1 (behind others later).2

theorem constructs (kind : ConstructKind) : Neat (constructScraps kind) := by
  have words : ∀ kind ∈ ConstructKind.known, Assembly.isWord (chars kind.name) = true := by
    decide
  cases kind with
  | object => exact nil
  | array => exact space rfl (word (words .array (by decide)) rfl nil)
  | boolean => exact space rfl (word (words .boolean (by decide)) rfl nil)
  | number => exact space rfl (word (words .number (by decide)) rfl nil)
  | unknown beyond =>
    exact space rfl (word (by decide) rfl (symbol (by decide)
      (numeral (isNumeral_ofNat _) rfl (symbol (by decide) nil))))

/-- A function in full, `declarationScraps`, is `Neat`, behind a blank as well. -/
theorem declaration {declaration : Declaration} (worded : declaration.Worded)
    (plain : declaration.name = [] ∨ isIdentifier declaration.name = true) :
    Neat (.blank ' ' :: declarationScraps declaration) := by
  have label : Neat (.symbol ')' :: .blank ' ' :: .symbol '@' ::
      .word (labelName declaration.entry) :: constructScraps declaration.constructs) := by
    refine symbol (by decide) (space rfl (symbol (by decide) ?_))
    refine word (isWord_labelName _) ?_ (constructs _)
    unfold constructScraps
    split <;> rfl
  have behind := symbol (show isSymbolChar '(' = true by decide) (parameters worded label)
  unfold declarationScraps
  rcases plain with none | identifier
  · rw [if_pos none]
    exact space rfl behind
  · rw [if_neg (ne_nil_of_isIdentifier identifier)]
    exact space rfl (word (isWord_of_isIdentifier identifier) rfl behind)

end Row.Neat

end Assembly

/-! ### Functions met on the way -/

theorem functionsUsed_append (first second : List (Instruction ℕ)) :
    functionsUsed (first ++ second) = functionsUsed first ++ functionsUsed second :=
  List.filterMap_append

theorem functionsUsed_cons (instruction : Instruction ℕ) (rest : List (Instruction ℕ)) :
    functionsUsed (instruction :: rest) =
      instruction.function?.toList ++ functionsUsed rest := by
  unfold functionsUsed
  cases used : instruction.function? <;> simp [used]

theorem reach_functionsUsed_snoc (before : List (Instruction ℕ)) (instruction : Instruction ℕ) :
    reach (functionsUsed (before ++ [instruction])) =
      Assembly.metAfter (reach (functionsUsed before)) instruction := by
  rw [functionsUsed_append, functionsUsed_cons, Assembly.metAfter]
  cases instruction.function? with
  | none => exact congrArg reach (List.append_nil _)
  | some use => exact reach_append_singleton _ use

/-- A function that is pushed where so many were met is the next one, or an earlier one with a
name; it is there in either case. -/
def Known (declarations : List Declaration) (met index : ℕ) : Prop :=
  ∃ declaration, declarations[index]? = some declaration ∧
    (index = met ∨ index < met ∧ declaration.name ≠ [])

/-- The operand of an instruction that has a row. A count may be any number. -/
def Datum.Listed (datum : Datum ℕ) : Opcode.OperandClass → Prop
  | .count => ∃ value, datum = .ofNumber value
  | operand => datum.Suits operand

/-- A program whose instructions have rows: its operands are ones that a row shows, `Datum.Listed`,
and its functions are `Ordered`: pushed in the order of their numbers, and a second time only if
they have a name. -/
structure Program.Listed (program : Program) : Prop where
  opcodes : ∀ instruction ∈ program.code.toList, instruction.opcode ∈ Opcode.valid
  data : ∀ instruction ∈ program.code.toList,
    instruction.datum.Listed instruction.opcode.operandClass
  ordered : Ordered program.items.toList (functionsUsed program.code.toList)
  all : reach (functionsUsed program.code.toList) = program.items.toList.length

theorem Datum.Suits.listed {datum : Datum ℕ} {operand : Opcode.OperandClass}
    (suits : datum.Suits operand) : datum.Listed operand := by
  cases operand with
  | count =>
    obtain ⟨count, isDatum⟩ := suits
    exact ⟨_, isDatum⟩
  | none | name | jump | literal => exact suits

theorem Datum.Listed.relisted {datum : Datum ℕ} {operand : Opcode.OperandClass}
    (listed : datum.Listed operand) : datum.relisted.Listed operand := by
  cases operand with
  | count =>
    obtain ⟨value, rfl⟩ := listed
    exact ⟨value, Datum.relisted_of_ne (by rintro ⟨⟩)⟩
  | none => exact Suits.relisted (show datum.Suits .none from listed)
  | name => exact Suits.relisted (show datum.Suits .name from listed)
  | jump => exact Suits.relisted (show datum.Suits .jump from listed)
  | literal => exact Suits.relisted (show datum.Suits .literal from listed)

theorem Program.Assembled.listed {program : Program} (assembled : program.Assembled) :
    program.Listed where
  opcodes instruction member := (assembled.code instruction member).opcode
  data instruction member := (assembled.code instruction member).datum.listed
  ordered := assembled.declared.ordered
  all := assembled.declared.all

theorem Program.Listed.relisted {program : Program} (listed : program.Listed) :
    program.relisted.Listed where
  opcodes := by
    intro instruction member
    rw [Program.relisted, Array.toList_map] at member
    obtain ⟨before, among, rfl⟩ := List.mem_map.mp member
    exact listed.opcodes before among
  data := by
    intro instruction member
    rw [Program.relisted, Array.toList_map] at member
    obtain ⟨before, among, rfl⟩ := List.mem_map.mp member
    exact (listed.data before among).relisted
  ordered := by
    rw [Program.relisted, Array.toList_map, functionsUsed_relisted]
    exact Assembly.ordered_relistedFrom listed.ordered
  all := by
    rw [Program.relisted, Array.toList_map, functionsUsed_relisted, listed.all]
    exact (Assembly.length_relistedFrom [] _).symm

theorem Program.Listed.known {program : Program} {before after : List (Instruction ℕ)}
    {instruction : Instruction ℕ} (listed : program.Listed)
    (split : program.code.toList = before ++ instruction :: after) {index : ℕ}
    (pushed : instruction.function? = some index) :
    Known program.items.toList (reach (functionsUsed before)) index := by
  have uses : functionsUsed program.code.toList =
      functionsUsed before ++ index :: functionsUsed after := by
    rw [split, functionsUsed_append, functionsUsed_cons, pushed]
    rfl
  have member : index ∈ functionsUsed program.code.toList := by simp [uses]
  have bound := lt_reach_of_mem member
  rw [listed.all] at bound
  refine ⟨program.items.toList[index], List.getElem?_eq_getElem bound, ?_⟩
  refine (listed.ordered _ _ _ uses).imp_right fun ⟨earlier, found, there, named⟩ => ⟨earlier, ?_⟩
  rw [List.getElem?_eq_getElem bound] at there
  exact Option.some.inj there ▸ named

/-- Operands that are counts are small enough to be one. -/
def Program.Counted (program : Program) : Prop :=
  ∀ instruction ∈ program.code.toList, instruction.opcode.operandClass = .count →
    (Number.size? instruction.datum.number).isSome = true

/-- A natural number is written as a text that denotes it, within the range of counts. -/
def Number.Counts (count : ℕ) : Prop :=
  Text.int64? (Number.Layout.value.write (Number.ofNat count)) = some (Int64.ofNat count) ∧
    count < 2 ^ 63

/-- Operands that are counts read back. -/
def Program.Counts (program : Program) : Prop :=
  ∀ instruction ∈ program.code.toList, instruction.opcode.operandClass = .count →
    ∃ count, instruction.datum = .ofNumber (Number.ofNat count) ∧ Number.Counts count

theorem Program.Counted.counts {program : Program} (counted : program.Counted)
    (assembled : program.Assembled) : program.Counts := by
  intro instruction member isCount
  have suits := (assembled.code instruction member).datum
  rw [isCount] at suits
  obtain ⟨large, isDatum⟩ := suits
  have sized := counted instruction member isCount
  rw [isDatum] at sized
  obtain ⟨count, isSize⟩ := Option.isSome_iff_exists.mp sized
  obtain ⟨same, small⟩ := Number.eq_ofNat_of_size? isSize
  refine ⟨count, by rw [isDatum, same], ?_, by omega⟩
  rw [Number.Layout.write_ofNat small, Text.int64?_ofNat (by omega)]

namespace Assembly

open Number (Layout)

variable {program : Program}

theorem neat_numberScrap (layout : Layout) (value : Float) :
    Row.Neat [.blank ' ', numberScrap layout value] := by
  unfold numberScrap
  cases isExact : Number.exact value with
  | finite negative significand exponent =>
    obtain ⟨spelling, proper, isText, -⟩ := Layout.exists_spelling_write layout isExact
    dsimp only
    rw [isText]
    exact .space rfl (.numeral (isNumeral_spelling proper _) rfl .nil)
  | notANumber =>
    refine .space rfl (.word ?_ rfl .nil)
    rw [Layout.write, isExact]
    exact (by decide : isWord (chars "NaN") = true)
  | infinite negative =>
    have words : ∀ negative, isWord (chars (Layout.withSign negative "Infinity")) = true := by
      decide
    refine .space rfl (.word ?_ rfl .nil)
    rw [Layout.write, isExact]
    exact words negative

/-- A function is pushed by the word for it and what tells which. -/
theorem literalScraps_ofObject (program : Program) (met : ℕ) {index : ℕ} {declaration : Declaration}
    (found : program.items.toList[index]? = some declaration) :
    literalScraps program met (.ofObject (some index)) =
      .word "func" :: .blank ' ' :: functionScraps met index declaration := by
  rw [Array.getElem?_toList] at found
  simp [literalScraps, Datum.ofObject, found]

theorem neat_literalScraps {met : ℕ} {datum : Datum ℕ} (isLiteral : datum.Literal)
    (worded : ∀ declaration ∈ program.items.toList, declaration.Worded) (plain : program.Plain)
    (known : ∀ index, datum = .ofObject (some index) → Known program.items.toList met index) :
    Row.Neat (.blank ' ' :: literalScraps program met datum) := by
  cases isLiteral with
  | null => exact .space rfl (.word (by decide) rfl .nil)
  | number value => exact neat_numberScrap .listing value
  | text value => exact .space rfl (.quoted .nil)
  | bool value =>
    cases value <;> exact .space rfl (.word (by decide) rfl .nil)
  | object index =>
    obtain ⟨declaration, found, place⟩ := known index rfl
    have member := List.mem_of_getElem? found
    rw [literalScraps_ofObject program met found]
    refine .space rfl (.word (by decide) rfl ?_)
    unfold functionScraps
    split
    · exact .declaration (worded declaration member) (plain.names declaration member)
    · case isFalse other =>
      have named := (place.resolve_left other).2
      have identifier := (plain.names declaration member).resolve_left named
      exact .space rfl (.word (isWord_of_isIdentifier identifier) rfl .nil)

theorem neat_instructionRow {met pc : ℕ} {instruction : Instruction ℕ}
    (listed : program.Listed) (plain : program.Plain)
    (worded : ∀ declaration ∈ program.items.toList, declaration.Worded)
    (member : instruction ∈ program.code.toList)
    (known : ∀ index, instruction.function? = some index →
      Known program.items.toList met index) :
    Row.Neat (instructionRow program met pc instruction) := by
  have suits := listed.data instruction member
  have words : ∀ opcode ∈ Opcode.valid, isWord (chars opcode.name) = true := by decide
  have isName := words instruction.opcode (listed.opcodes instruction member)
  refine .blank (by decide) rfl (.word isName ?_ ?_)
  · unfold operandScraps
    split
    · rfl
    · rfl
    · rfl
    · dsimp only
      split <;> rfl
    · rfl
  unfold operandScraps
  split
  · exact .nil
  · split
    · case isTrue kind =>
      have identifier := plain.data instruction member kind
      exact .space rfl (.word (isWord_of_isIdentifier identifier) rfl .nil)
    · exact .space rfl (.quoted .nil)
  · exact neat_numberScrap .value _
  · dsimp only
    split
    · exact .space rfl
        (.symbol (by decide) (.word (isWord_labelName _) rfl .nil))
    · exact .space rfl (.numeral (isNumeral_ofInt _) rfl .nil)
  · case h_5 isLiteral =>
    rw [isLiteral] at suits
    refine neat_literalScraps suits worded plain fun index isObject => ?_
    refine known index ?_
    rw [Instruction.function?, isObject]
    rfl

/-- Instructions with their addresses, from an address on. -/
def numberedFrom (pc : ℕ) (code : List (Instruction ℕ)) : List (ℕ × Instruction ℕ) :=
  (List.range' pc code.length).zip code

theorem numbered_eq (program : Snapshot) :
    numbered program = numberedFrom 0 program.code.toList := by
  unfold numbered numberedFrom
  rw [List.range_eq_range']
  rfl

theorem numbered_snapshot (program : Program) :
    numbered program.snapshot = numberedFrom 0 program.code.toList :=
  numbered_eq program.snapshot

theorem numberedFrom_nil (pc : ℕ) : numberedFrom pc [] = [] := rfl

theorem numberedFrom_cons (pc : ℕ) (instruction : Instruction ℕ) (rest : List (Instruction ℕ)) :
    numberedFrom pc (instruction :: rest) = (pc, instruction) :: numberedFrom (pc + 1) rest := rfl

theorem neat_labelRows (labels : List Int64) (address : Int64) :
    ∀ row ∈ labelRows labels address, Row.Neat row := by
  unfold labelRows
  split
  · exact List.forall_mem_singleton.mpr
      (.word (isWord_labelName address) rfl (.symbol (by decide) .nil))
  · exact List.forall_mem_nil _

theorem neat_directiveRows {word : Text} (isWord : isWord (chars word) = true)
    (bound usual : Int64) : ∀ row ∈ directiveRows word bound usual, Row.Neat row := by
  unfold directiveRows
  split
  · exact List.forall_mem_nil _
  · exact List.forall_mem_singleton.mpr
      (.word isWord rfl (.space rfl (.word (isWord_labelName bound) rfl .nil)))

theorem neat_bodyRows (listed : program.Listed) (plain : program.Plain)
    (worded : ∀ declaration ∈ program.items.toList, declaration.Worded) (labels : List Int64)
    (before rest : List (Instruction ℕ))
    (split : program.code.toList = before ++ rest) :
    ∀ row ∈ bodyRows program labels (reach (functionsUsed before))
      (numberedFrom before.length rest), Row.Neat row := by
  induction rest generalizing before with
  | nil => exact List.forall_mem_nil _
  | cons instruction rest ih =>
    have member : instruction ∈ program.code.toList := by simp [split]
    have known : ∀ index, instruction.function? = some index →
        Known program.items.toList (reach (functionsUsed before)) index :=
      fun index => listed.known split
    have later := ih (before ++ [instruction]) (by simp [split])
    rw [reach_functionsUsed_snoc, List.length_append, List.length_singleton] at later
    rw [numberedFrom_cons, bodyRows]
    exact List.forall_mem_append.mpr ⟨neat_labelRows labels _, List.forall_mem_cons.mpr
      ⟨neat_instructionRow listed plain worded member known, later⟩⟩

/-- The rows of a program that is `Listed` are `Neat`. -/
theorem neat_rows (listed : program.Listed) (plain : program.Plain)
    (worded : ∀ declaration ∈ program.items.toList, declaration.Worded) :
    ∀ row ∈ rows program, Row.Neat row := by
  unfold rows
  dsimp only
  rw [numbered_snapshot]
  refine List.forall_mem_append.mpr ⟨List.forall_mem_append.mpr ⟨List.forall_mem_append.mpr
    ⟨neat_directiveRows (by decide) _ _, neat_directiveRows (by decide) _ _⟩, ?_⟩,
    neat_labelRows _ _⟩
  exact neat_bodyRows listed plain worded _ [] program.code.toList rfl

end Assembly

end ScriptEngine
