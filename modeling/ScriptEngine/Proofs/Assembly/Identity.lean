/-
This file proves that listings keep functions apart. Every function that has a name is listed in
full once, where it is first pushed, and under a name that is no other's; and a source that shows
functions in that way tells them apart, since it pushes a function of its own for each name. So two
instructions push the same function of what a listing assembles to just if they did before.
-/

import Mathlib
import ScriptEngine.Proofs.Assembly.Places
import ScriptEngine.Proofs.Assembly.Resolution

namespace ScriptEngine

namespace Assembly

/-! ### Names of functions in a source -/

/-- The name of a function that is pushed, which is empty if it has none. -/
def FunctionPhrase.name : FunctionPhrase → Text
  | reference name => name.val
  | declaration name _ _ _ => (name.map Subtype.val).getD []

/-- The number of a function that is pushed is that of a function with its name among the
`signatures`. -/
theorem exists_signature_name {before : List LinePhrase} (after : List LinePhrase)
    {line : LinePhrase} {function : FunctionPhrase} (isFunction : line.function? = some function)
    {index : ℕ} (number : function.number? ((signatures before).map Prod.fst) = some index) :
    ∃ label, (signatures (before ++ line :: after))[index]? = some (function.name, label) := by
  have split : signatures (before ++ line :: after) =
      signatures before ++ function.signature?.toList ++ signatures after := by
    unfold signatures
    rw [List.append_cons, List.filterMap_append, filterMap_append_singleton, isFunction]
    rfl
  rw [split, List.append_assoc]
  cases function with
  | reference name =>
    obtain ⟨label, -, there⟩ := getElem?_findIdx?_lookup number
    exact ⟨label,
      (List.getElem?_append_left (List.getElem?_eq_some_iff.mp there).1).trans there⟩
  | declaration name params label constructs =>
    obtain rfl : ((signatures before).map Prod.fst).length = index := Option.some.inj number
    rw [List.length_map, List.getElem?_append_right (Nat.le_refl _), Nat.sub_self]
    exact ⟨label, rfl⟩

/-- The words of a named function start with its name. -/
theorem name_of_words {function : FunctionPhrase} {name : Text} {more : List Word}
    (isWords : function.words = (.identifier, name) :: more) : function.name = name := by
  cases function with
  | reference other =>
    exact congrArg Prod.snd (List.cons.inj isWords).1
  | declaration other params label constructs =>
    cases other with
    | none => cases isWords
    | some other => exact congrArg Prod.snd (List.cons.inj isWords).1

/-! ### Lines that push functions -/

theorem exists_of_forall₂_append_cons {Left Right : Type} {Relates : Left → Right → Prop}
    {front behind : List Left} {item : Left} {list : List Right}
    (related : List.Forall₂ Relates (front ++ item :: behind) list) :
    ∃ before found after, list = before ++ found :: after ∧ List.Forall₂ Relates front before ∧
      Relates item found := by
  induction front generalizing list with
  | nil =>
    obtain ⟨found, after, here, -, rfl⟩ := List.forall₂_cons_left_iff.mp related
    exact ⟨[], found, after, rfl, .nil, here⟩
  | cons first front ih =>
    obtain ⟨other, list, here, later, rfl⟩ := List.forall₂_cons_left_iff.mp related
    obtain ⟨before, found, after, rfl, others, isItem⟩ := ih later
    exact ⟨other :: before, found, after, rfl, .cons here others, isItem⟩

/-- Phrases that the rows `Spells` have as many instructions as these. -/
theorem instructionCount_eq {rows : List (List Token)} {phrases : List LinePhrase}
    (spells : List.Forall₂ Spells rows phrases) (declares : Declares phrases) :
    instructionCount phrases = (codeLines rows).length := by
  obtain ⟨draft, read, follows⟩ := exists_readLines spells Draft.follows_empty declares
  have faithful := faithful_of_readLines Draft.faithful_nil read
  rw [List.nil_append] at faithful follows
  rw [← faithful.size]
  exact follows.describes.size.symm

/-- The first words of a line are those of its phrase. -/
theorem exists_words_of_spells {row : List Token} {phrase : LinePhrase} {words more : List Word}
    (spells : Spells row phrase) (isRow : row.map Token.word = words ++ more)
    (inside : ∀ word ∈ words, ¬ word.1.IsEnd) : ∃ rest, phrase.words = words ++ rest := by
  obtain ⟨last, isEnd, isWords⟩ := spells
  rw [isRow] at isWords
  rcases List.append_eq_append_iff.mp isWords with ⟨rest, isPhrase, -⟩ | ⟨rest, isFront, isEnds⟩
  · exact ⟨rest, isPhrase⟩
  · cases rest with
    | nil => exact ⟨[], by rw [isFront, List.append_nil, List.append_nil]⟩
    | cons first others =>
      obtain ⟨rfl, -⟩ := List.cons.inj isEnds
      exact absurd isEnd (inside last (isFront ▸ by simp))

/-- A line that pushes a named function is an instruction with a function phrase. -/
theorem exists_function_of_spells {row : List Token} {phrase : LinePhrase} {name : Text}
    {more : List Word} (spells : Spells row phrase)
    (isRow : row.map Token.word = (.identifier, Text.ofString "push") ::
      (.identifier, Text.ofString "func") :: (.identifier, name) :: more) :
    phrase.opcode? = some .push ∧
      ∃ function, phrase.function? = some function ∧ function.name = name := by
  have split : row.map Token.word = [(.identifier, Text.ofString "push"),
      (.identifier, Text.ofString "func"), (.identifier, name)] ++ more := isRow
  obtain ⟨rest, isPhrase⟩ := exists_words_of_spells spells split (by simp [TokenKind.IsEnd])
  obtain ⟨operand, rfl, isOperand⟩ :=
    exists_operand (show Opcode.push ∈ Opcode.valid by decide) isPhrase (by simp)
  obtain ⟨function, isFunction, words⟩ := exists_function_of_words rfl isOperand
  exact ⟨rfl, function, isFunction, name_of_words words⟩

/-- A line that pushes a named function has an instruction that pushes one with that name,
`PushesAt`. -/
theorem exists_push_of_assemble {source : Text} {program : Program}
    {rows others : List (List Token)} {row : List Token} {name : Text} {more : List Word}
    (assembles : assemble source = .ok program) (isLines : linesOf source = rows ++ row :: others)
    (isRow : row.map Token.word = (.identifier, Text.ofString "push") ::
      (.identifier, Text.ofString "func") :: (.identifier, name) :: more) :
    ∃ index declaration, program.snapshot.PushesAt (codeLines rows).length index declaration ∧
      declaration.name = name := by
  obtain ⟨phrases, spells, coherent⟩ := exists_spells_of_assemble assembles
  have isWords : (tokens source).map Token.word = sourceWords phrases := by
    obtain ⟨body, last, isTokens, isLast, ends⟩ := exists_tokens_eq source
    rw [isTokens] at spells ⊢
    exact sourceWords_of_spells isLast ends spells
  have resolved := resolved_of_assemble assembles isWords coherent
  rw [← linesOf, isLines] at spells
  obtain ⟨before, phrase, after, rfl, front, spelt⟩ := exists_of_forall₂_append_cons spells
  obtain ⟨isPush, function, isFunction, rfl⟩ := exists_function_of_spells spelt isRow
  have declares : Declares (before ++ phrase :: after) := ⟨coherent.labels, coherent.functions⟩
  obtain ⟨instruction, found, opcode, -, functions⟩ :=
    resolved.instructions before phrase after rfl .push isPush
  obtain ⟨index, declaration, label, number, -, isDatum, isItem, -⟩ := functions function isFunction
  obtain ⟨label, isSignature⟩ := exists_signature_name after isFunction number
  have named := congrArg (fun list => list[index]?) resolved.functions
  simp only [List.getElem?_map, isSignature, Array.getElem?_toList, isItem, Option.map_some]
    at named
  refine ⟨index, declaration, ⟨instruction, ?_, pushed?_eq_some_iff.mpr ⟨opcode, ?_, ?_, ?_⟩⟩,
    (Prod.mk.inj (Option.some.inj named)).1⟩
  · rw [← instructionCount_eq front declares.of_append]
    exact found
  · rw [isDatum]
    rfl
  · rw [isDatum]
    rfl
  · show (program.items.map Embedded.script)[index]?.bind Embedded.declaration? = _
    rw [Array.getElem?_map, isItem]
    rfl

/-- What is no opcode is listed by its code. -/
theorem exists_name_of_invalid {opcode : Opcode} (invalid : opcode ∉ Opcode.valid) :
    ∃ more, opcode.name = Text.ofString "opcode" ++ 40 :: more := by
  cases opcode with
  | unknown beyond =>
    exact ⟨_, List.append_assoc (Text.ofString "opcode(") (Text.ofNat (45 + beyond.val))
      (Text.ofString ")")⟩
  | _ => exact absurd (by decide) invalid

/-- An opcode that is none has no line. -/
theorem not_spells_of_words {row : List Token} {phrase : LinePhrase} {more : List Word}
    (isRow : row.map Token.word =
      (.identifier, Text.ofString "opcode") :: (.symbol, Text.ofString "(") :: more) :
    ¬ Spells row phrase := by
  intro spells
  have split : row.map Token.word = [(.identifier, Text.ofString "opcode"),
      (.symbol, Text.ofString "(")] ++ more := isRow
  obtain ⟨rest, isPhrase⟩ := exists_words_of_spells spells split (by simp [TokenKind.IsEnd])
  obtain ⟨label, statement⟩ := phrase
  cases label with
  | some label =>
    have second := (List.cons.inj (List.cons.inj isPhrase).2).1
    exact absurd (congrArg Prod.snd second) (by decide)
  | none =>
    cases statement with
    | none => cases isPhrase
    | some statement =>
      have keyword : statement.keyword = Text.ofString "opcode" :=
        congrArg Prod.snd (List.cons.inj isPhrase).1
      have names : ∀ opcode ∈ Opcode.valid, opcode.name ≠ Text.ofString "opcode" := by decide
      cases statement with
      | entry label =>
        exact absurd keyword (show Text.ofString ".entry" ≠ Text.ofString "opcode" by decide)
      | stop label =>
        exact absurd keyword (show Text.ofString ".end" ≠ Text.ofString "opcode" by decide)
      | instruction opcode valid operand => exact names opcode valid keyword

/-- The scraps that a push of a function starts with if it has a name. -/
def pushScraps (name : Text) : List Scrap :=
  [.blank '\t', .word "push", .blank ' ', .word "func", .blank ' ', .word name]

theorem neat_pushScraps {name : Text} (identifier : isIdentifier name = true) :
    Row.Neat (pushScraps name) :=
  .blank (by decide) rfl (.word (by decide) rfl (.space rfl (.word (by decide) rfl
    (.space rfl (.word (isWord_of_isIdentifier identifier) rfl .nil)))))

theorem text_pushScraps (name : Text) :
    scrapsText (pushScraps name) = 9 :: (Text.ofString "push func " ++ name) :=
  calc scrapsText (pushScraps name)
      = scrapsText [.blank '\t', .word "push", .blank ' ', .word "func", .blank ' '] ++
          scrapsText [.word name] := by
        unfold scrapsText
        rw [← List.flatMap_append]
        rfl
    _ = 9 :: Text.ofString "push func " ++ name := congrArg (_ ++ ·) (List.append_nil name)

theorem stops_of_bracket (name rest : Text) :
    (Scrap.word name).Stops (Text.chars (40 :: rest)) := by
  have bracket : (Scrap.symbol '(').Proper := rfl
  have split : Text.chars (40 :: rest) = Text.chars (Scrap.symbol '(').text ++ Text.chars rest :=
    Scrap.chars_text_append bracket rest
  rw [split]
  exact Scrap.stops_of_clear bracket rfl _

end Assembly

/-! ### Lines of a listing in a source -/

open Assembly (labelLine instructionLines linesOf codeLines Scrap)

namespace ProgramOf

variable {program : Snapshot} {lines : List Text} {pc : ℕ}

/-- What is listed is what is listed before an instruction, its line and what follows. -/
theorem exists_rest {line : Text} (found : lines[pc]? = some line) :
    ∃ rest, program.listedBefore lines lines.length = program.listedBefore lines pc ++
      (line ++ rest) :=
  exists_listedBefore found (List.getElem?_eq_some_iff.mp found).1

/-- A line that starts with some scraps behind its label is one of `linesOf` the source. -/
theorem exists_row (prints : program.PrintsAs lines) (pc : ℕ) {scraps : List Scrap}
    (neat : Assembly.Row.Neat scraps) {rest : Text}
    (stops : ∀ last ∈ scraps.getLast?, last.Stops (Text.chars rest)) :
    ∃ rows row others next more,
      linesOf (program.listedBefore lines pc ++ (labelLine (Assembly.targets program)
        (Int64.ofNat pc) ++ (Assembly.scrapsText scraps ++ rest))) = rows ++ row :: others ∧
      (codeLines rows).length = program.place lines pc ∧
      row.map Assembly.Token.word = Assembly.Row.words scraps ++ next :: more := by
  have before := ended_listedBefore prints pc
  have labels := Assembly.instructionsIn_append before
    (Assembly.spans_labelLine (Assembly.targets program) (Int64.ofNat pc))
  obtain ⟨rows, row, others, next, more, isLines, count, words, -⟩ :=
    Assembly.exists_row (before.append (ended_labelLine (Assembly.targets program)
      (Int64.ofNat pc))) neat stops
  rw [List.append_assoc] at isLines
  exact ⟨rows, row, others, next, more, isLines, count.trans labels, words⟩

/-- An instruction of a listing that assembles has an opcode that there is. -/
theorem valid_of_assemble (prints : program.PrintsAs lines) {rest : Text} {again : Program}
    (assembles : Assembly.assemble (program.listedBefore lines lines.length ++ rest) = .ok again) :
    ∀ instruction ∈ program.code.toList, instruction.opcode ∈ Opcode.valid := by
  intro instruction member
  obtain ⟨pc, found⟩ := List.getElem?_of_mem member
  rw [Array.getElem?_toList] at found
  obtain ⟨printed, after, text, -, shown, isLine⟩ := prints.exists_line found
  obtain ⟨behind, whole⟩ := exists_rest isLine
  by_contra invalid
  obtain ⟨name, isName⟩ := Assembly.exists_name_of_invalid invalid
  obtain ⟨more, rfl⟩ : ∃ more, text = Text.ofString "opcode" ++ 40 :: more := by
    rcases Assembly.exists_operand_of_instructionText shown with rfl | ⟨scrap, more, rfl, -⟩
    · exact ⟨name, isName⟩
    · exact ⟨name ++ 32 :: (scrap.text ++ more), by rw [isName]; simp⟩
  have neat : Assembly.Row.Neat [.blank '\t', .word "opcode", .symbol '('] :=
    .blank (by decide) rfl (.word (by decide) rfl (.symbol (by decide) .nil))
  have stops : ∀ last ∈ [Scrap.blank '\t', .word "opcode", .symbol '('].getLast?,
      last.Stops (Text.chars (more ++ 10 :: (behind ++ rest))) := by
    rintro _ ⟨⟩
    refine ⟨fun isInk => ?_, fun isGap => ?_⟩
    · cases isInk
    · cases isGap
  obtain ⟨rows, row, others, next, words, isLines, -, isRow⟩ := exists_row prints pc neat stops
  have isSource : program.listedBefore lines lines.length ++ rest =
      program.listedBefore lines pc ++ (labelLine (Assembly.targets program) (Int64.ofNat pc) ++
        (Assembly.scrapsText [.blank '\t', .word "opcode", .symbol '('] ++
          (more ++ 10 :: (behind ++ rest)))) := by
    have isText : Assembly.scrapsText [.blank '\t', .word "opcode", .symbol '('] =
        9 :: (Text.ofString "opcode" ++ [40]) := rfl
    rw [whole, isText]
    simp
  obtain ⟨phrases, spells, -⟩ := Assembly.exists_spells_of_assemble assembles
  rw [← linesOf, isSource, isLines] at spells
  obtain ⟨before, phrase, after, -, -, spelt⟩ := Assembly.exists_of_forall₂_append_cons spells
  exact Assembly.not_spells_of_words isRow spelt

/-- A line that pushes a function with a name says so in its first words. -/
theorem exists_pushRow (prints : program.PrintsAs lines) (pc : ℕ) {name tail : Text}
    (identifier : Assembly.isIdentifier name = true)
    (follows : tail = [] ∨ ∃ more, tail = 40 :: more) (rest : Text) :
    ∃ rows row others more,
      linesOf (program.listedBefore lines pc ++ (program.pushLine pc (name ++ tail) ++ rest)) =
        rows ++ row :: others ∧
      (codeLines rows).length = program.place lines pc ∧
      row.map Assembly.Token.word = (.identifier, Text.ofString "push") ::
        (.identifier, Text.ofString "func") :: (.identifier, name) :: more := by
  have stops : ∀ last ∈ (Assembly.pushScraps name).getLast?,
      last.Stops (Text.chars (tail ++ 10 :: rest)) := by
    rintro _ ⟨⟩
    rcases follows with rfl | ⟨more, rfl⟩
    · exact Assembly.stops_of_newline _ rest
    · exact Assembly.stops_of_bracket name (more ++ 10 :: rest)
  obtain ⟨rows, row, others, next, more, isLines, count, words⟩ :=
    exists_row prints pc (Assembly.neat_pushScraps identifier) stops
  rw [Assembly.text_pushScraps] at isLines
  refine ⟨rows, row, others, next :: more, ?_, count, words⟩
  rw [← isLines, pushLine, show Text.ofString "\n" = [10] from rfl]
  simp

/-! ### Functions over again -/

variable {names : ℕ → Text} {again : Program}

/-- A listing is made of the lines of instructions, as `PrintsAs` says, between directives and the
last label. -/
theorem exists_lines_of_listing {text : Text} (isListing : program.listing = .ok text) :
    ∃ lines, program.PrintsAs lines ∧
      text = program.listedBefore lines lines.length ++
        labelLine (Assembly.targets program) program.size := by
  obtain ⟨lines, prints, isText⟩ := Assembly.bind_eq_ok_iff.mp isListing
  cases isText
  refine ⟨lines, prints, ?_⟩
  unfold listedBefore
  rw [List.take_length]

/-- An instruction `PushesAt` its place one function at most. -/
theorem PushesAt.unique {pc index other : ℕ} {declaration further : Declaration}
    (pushes : program.PushesAt pc index declaration) (also : program.PushesAt pc other further) :
    index = other ∧ declaration = further := by
  obtain ⟨instruction, found, pushed⟩ := pushes
  obtain ⟨same, there, isOther⟩ := also
  cases found.symm.trans there
  exact Prod.mk.inj (Option.some.inj (pushed.symm.trans isOther))

theorem PushesAt.item {pc index : ℕ} {declaration : Declaration}
    (pushes : again.snapshot.PushesAt pc index declaration) :
    again.items.toList[index]? = some declaration := by
  obtain ⟨instruction, -, pushed⟩ := pushes
  obtain ⟨-, -, -, found⟩ := Assembly.pushed?_eq_some_iff.mp pushed
  have isItem : (again.items.map Embedded.script)[index]?.bind Embedded.declaration? =
      some declaration := found
  rw [Array.getElem?_map] at isItem
  rw [Array.getElem?_toList]
  cases there : again.items[index]? with
  | none =>
    rw [there] at isItem
    cases isItem
  | some item =>
    rw [there] at isItem
    exact isItem

/-- Functions with a name of a program that was assembled are told apart by their names. -/
theorem index_eq_iff_of_assemble {source : Text}
    (assembles : Assembly.assemble source = .ok again) {pc other index second : ℕ}
    {declaration further : Declaration} (names : again.snapshot.NamesAt pc index declaration)
    (namesOther : again.snapshot.NamesAt other second further) :
    index = second ↔ declaration.name = further.name := by
  have distinct := (Assembly.assembled_of_assemble assembles).declared.distinct
  obtain ⟨within, isFirst⟩ := List.getElem?_eq_some_iff.mp names.1.item
  obtain ⟨inside, isSecond⟩ := List.getElem?_eq_some_iff.mp namesOther.1.item
  constructor
  · rintro rfl
    rw [← isFirst, ← isSecond]
  · intro same
    by_contra other
    rw [List.pairwise_iff_getElem] at distinct
    rcases Nat.lt_or_gt_of_ne other with before | behind
    · have apart := distinct index second within inside before
      rw [isFirst, isSecond] at apart
      exact (apart.resolve_left names.2) same
    · have apart := distinct second index inside within behind
      rw [isFirst, isSecond] at apart
      exact (apart.resolve_left namesOther.2) same.symm

/-- What a source has of the functions of a program that it lists. Where an instruction comes that
pushes a function with a name, a function is pushed with the name it is listed under, and there are
as many of these as there were. Instructions stay in their order; they only change their places if
there is a parameter with a line break, behind which its line may go on as one of the source. -/
structure Keeps (program : Snapshot) (names : ℕ → Text) (lines : List Text) (again : Snapshot) :
    Prop where
  pushes : ∀ {pc index declaration}, program.NamesAt pc index declaration →
    ∃ number function, again.NamesAt (program.place lines pc) number function ∧
      function.name = names index
  /-- Two instructions push the same function just if they did before. -/
  same : ∀ {pc other index second number another declaration further function next},
    program.NamesAt pc index declaration → program.NamesAt other second further →
    again.NamesAt (program.place lines pc) number function →
    again.NamesAt (program.place lines other) another next → (number = another ↔ index = second)
  ordered : ∀ {pc other index declaration}, program.NamesAt pc index declaration → pc < other →
    program.place lines pc < program.place lines other
  place : program.InLine → ∀ pc ≤ program.code.size, program.place lines pc = pc

theorem exists_declarationText (name : Text) (declaration : Declaration) :
    ∃ more, Assembly.declarationText name declaration = name ++ 40 :: more := by
  unfold Assembly.declarationText
  simp only [List.append_assoc]
  exact ⟨_, rfl⟩

/-- The line of an instruction that `NamesAt` its place a function starts with the name. -/
theorem NamesAt.exists_tail {pc index : ℕ} {declaration : Declaration}
    (shown : program.Shown names lines) (namesAt : program.NamesAt pc index declaration) :
    ∃ tail, lines[pc]? = some (program.pushLine pc (names index ++ tail)) ∧
      (tail = [] ∨ ∃ more, tail = 40 :: more) := by
  by_cases introduces : program.IntroducesAt pc index declaration
  · obtain ⟨more, isText⟩ := exists_declarationText (names index) declaration
    exact ⟨40 :: more, by rw [shown.first introduces, isText], .inr ⟨more, rfl⟩⟩
  · exact ⟨[], by rw [shown.later namesAt introduces, List.append_nil], .inl rfl⟩

/-- Where a function with a name is pushed, `NamesAt`, there is a line in all that is listed so far.
-/
theorem NamesAt.place_lt (prints : program.PrintsAs lines) (naming : program.Naming names)
    (shown : program.Shown names lines) {pc other index : ℕ} {declaration : Declaration}
    (namesAt : program.NamesAt pc index declaration) (later : pc < other) :
    program.place lines pc < program.place lines other := by
  obtain ⟨tail, isLine, follows⟩ := namesAt.exists_tail shown
  obtain ⟨rest, whole⟩ := exists_listedBefore isLine later
  obtain ⟨rows, row, others, more, isLines, count, isRow⟩ :=
    exists_pushRow prints pc (naming.identifier namesAt) follows rest
  have isPush : Assembly.opcodeOf? row = some .push :=
    (Assembly.opcodeOf?_of_words isRow (by simp)).trans (by decide)
  have next : codeLines (row :: others) = row :: codeLines others :=
    List.filter_cons_of_pos (by rw [isPush]; rfl)
  have place : program.place lines other = program.place lines pc +
      (codeLines (row :: others)).length := by
    rw [← count, ← Assembly.length_codeLines_append, ← isLines, ← whole]
    rfl
  rw [place, next, List.length_cons]
  omega

/-- Where a function with a name is pushed, `NamesAt`, one with its listed name is pushed over
again. -/
theorem NamesAt.exists_again (prints : program.PrintsAs lines) (naming : program.Naming names)
    (shown : program.Shown names lines) {rest : Text}
    (assembles : Assembly.assemble (program.listedBefore lines lines.length ++ rest) = .ok again)
    {pc index : ℕ} {declaration : Declaration}
    (namesAt : program.NamesAt pc index declaration) :
    ∃ number function, again.snapshot.NamesAt (program.place lines pc) number function ∧
      function.name = names index := by
  have identifier := naming.identifier namesAt
  obtain ⟨tail, isLine, follows⟩ := namesAt.exists_tail shown
  obtain ⟨behind, whole⟩ := exists_rest isLine
  obtain ⟨rows, row, others, more, isLines, count, isRow⟩ :=
    exists_pushRow prints pc identifier follows (behind ++ rest)
  rw [whole, List.append_assoc, List.append_assoc] at assembles
  obtain ⟨number, function, pushes, name⟩ :=
    Assembly.exists_push_of_assemble assembles isLines isRow
  rw [count] at pushes
  refine ⟨number, function, ⟨pushes, ?_⟩, name⟩
  rw [name]
  exact Assembly.ne_nil_of_isIdentifier identifier

theorem keeps_of_assemble (prints : program.PrintsAs lines) (naming : program.Naming names)
    (shown : program.Shown names lines) {rest : Text}
    (assembles : Assembly.assemble (program.listedBefore lines lines.length ++ rest) = .ok again) :
    program.Keeps names lines again.snapshot where
  pushes namesAt := namesAt.exists_again prints naming shown assembles
  same namesAt namesOther isNumber isAnother := by
    obtain ⟨number, function, found, name⟩ := namesAt.exists_again prints naming shown assembles
    obtain ⟨another, next, there, other⟩ := namesOther.exists_again prints naming shown assembles
    obtain ⟨rfl, rfl⟩ := found.1.unique isNumber.1
    obtain ⟨rfl, rfl⟩ := there.1.unique isAnother.1
    rw [index_eq_iff_of_assemble assembles found there, name, other]
    refine ⟨naming.apart namesAt namesOther, ?_⟩
    rintro rfl
    rfl
  ordered namesAt later := namesAt.place_lt prints naming shown later
  place inLine pc within := place_eq prints inLine (valid_of_assemble prints assembles) within

/-- A listing never merges functions. Every program has a listing, unless an instruction is not
`Instruction.OperandKnown`. The listing is made of the lines that `ProgramOf.PrintsAs` says, under a
`ProgramOf.Naming`: every function that has a name has one identifier, which is the name of no other
function; renaming comes to an end, since it goes through as many names at most as there are
instructions so far. By `ProgramOf.Shown` each of these functions is printed in full once, where it
is first pushed, and all other pushes of it print exactly its name. So if the listing assembles, the
program `ProgramOf.Keeps` what its functions are: two instructions that push functions with names
push the same one just if they did before. -/
theorem listing_keeps (program : Snapshot) :
    ((∃ text, program.listing = .ok text) ↔
      ∀ instruction ∈ program.code.toList, instruction.OperandKnown) ∧
    ∀ text, program.listing = .ok text → ∃ names lines,
      program.PrintsAs lines ∧
      text = program.listedBefore lines lines.length ++
        labelLine (Assembly.targets program) program.size ∧
      program.Naming names ∧ program.Shown names lines ∧
      ∀ again, Assembly.assemble text = .ok again →
        program.Keeps names lines again.snapshot := by
  refine ⟨exists_listing_iff program, fun text isListing => ?_⟩
  obtain ⟨lines, prints, rfl⟩ := exists_lines_of_listing isListing
  have naming := naming_listedName program
  exact ⟨program.listedName, lines, prints, rfl, naming, prints.shown, fun again assembles =>
    keeps_of_assemble prints naming prints.shown assembles⟩

/-- Two functions of one name, one that has the name that the second of them gets, one whose name
is no identifier, and one without a name; all of them are pushed in turns. -/
def namesakes : Snapshot where
  code := #[
    { opcode := .push, datum := .ofObject (some 0) },
    { opcode := .push, datum := .ofObject (some 1) },
    { opcode := .push, datum := .ofObject (some 2) },
    { opcode := .push, datum := .ofObject (some 3) },
    { opcode := .push, datum := .ofObject (some 4) },
    { opcode := .push, datum := .ofObject (some 1) },
    { opcode := .push, datum := .ofObject (some 0) },
    { opcode := .push, datum := .ofObject (some 4) },
    { opcode := .push, datum := .ofObject (some 2) },
    { opcode := .push, datum := .ofObject (some 3) }]
  items := #[.script { name := "f" }, .script { name := "f", params := ["x"] },
    .native { name := "f_2" }, .script { name := "f 2" }, .script {}]
  stop := 10

/-- The listing of these functions. -/
def namesakesListing : Text :=
  ["L0:",
    "\tpush func f() @L0",
    "\tpush func f_2(x) @L0",
    "\tpush func f_2_2() @L0",
    "\tpush func fn() @L0",
    "\tpush func () @L0",
    "\tpush func f_2",
    "\tpush func f",
    "\tpush func () @L0",
    "\tpush func f_2_2",
    "\tpush func fn"].flatMap fun line => Text.ofString line ++ Text.ofString "\n"

/-- What the listing denotes. -/
def namesakesAgain : Program where
  code := #[
    { opcode := .push, datum := .ofObject (some 0) },
    { opcode := .push, datum := .ofObject (some 1) },
    { opcode := .push, datum := .ofObject (some 2) },
    { opcode := .push, datum := .ofObject (some 3) },
    { opcode := .push, datum := .ofObject (some 4) },
    { opcode := .push, datum := .ofObject (some 1) },
    { opcode := .push, datum := .ofObject (some 0) },
    { opcode := .push, datum := .ofObject (some 5) },
    { opcode := .push, datum := .ofObject (some 2) },
    { opcode := .push, datum := .ofObject (some 3) }]
  items := #[{ name := "f" }, { name := "f_2", params := ["x"] }, { name := "f_2_2" },
    { name := "fn" }, {}, {}]
  stop := 10

theorem listing_keeps_namesakes : namesakes.listing = .ok namesakesListing ∧
    Assembly.assemble namesakesListing = .ok namesakesAgain ∧
    ∃ names lines, namesakes.Naming names ∧ namesakes.Shown names lines ∧
      namesakes.Keeps names lines namesakesAgain.snapshot := by
  have isListing : namesakes.listing = .ok namesakesListing := by decide +kernel
  have assembles : Assembly.assemble namesakesListing = .ok namesakesAgain := by decide +kernel
  obtain ⟨names, lines, -, -, naming, shown, keeps⟩ :=
    (listing_keeps namesakes).2 namesakesListing isListing
  exact ⟨isListing, assembles, names, lines, naming, shown, keeps namesakesAgain assembles⟩

end ProgramOf

end ScriptEngine
