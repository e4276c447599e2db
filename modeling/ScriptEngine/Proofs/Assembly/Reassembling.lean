/-
This file proves that the rows of a plain program assemble to it. Row by row the draft comes to
hold the instructions so far, apart from the offsets of jumps that still have to be linked, the
labels of the addresses so far and the functions met; linking then finds every label that is used.
-/

import Mathlib
import ScriptEngine.Proofs.Assembly.Sheet

namespace ScriptEngine

open Text (ofChars chars)

namespace Assembly

open Number (Layout)

variable {rest : List Word}

/-! ### Functions -/

/-- The words of parameters behind the first. -/
def parameterWords (params : List Text) : List Word :=
  params.flatMap fun param => [(.symbol, Text.ofString ","), (.identifier, param)]

theorem words_parameterScraps (first : Text) (others : List Text) :
    (parameterScraps (first :: others)).filterMap Scrap.word? =
      (.identifier, first) :: parameterWords others := by
  have behind : (others.flatMap fun param => [Scrap.symbol ',', .blank ' ', .word param]).filterMap
      Scrap.word? = parameterWords others := by
    unfold parameterWords
    rw [List.filterMap_flatMap]
    rfl
  rw [parameterScraps, ← behind]
  rfl

/-- Parameters behind the first are read up to the closing bracket. -/
theorem parametersFrom_behind {params names : List Text} (some : names ≠ []) {tokens : List Token}
    (isWords : tokens.map Token.word =
      parameterWords params ++ (.symbol, Text.ofString ")") :: rest) :
    ∃ remaining, parametersFrom tokens names = .ok (names ++ params, remaining) ∧
      remaining.map Token.word = rest := by
  induction params generalizing names tokens with
  | nil =>
    obtain ⟨token, remaining, rfl, isToken, isRest⟩ := List.map_eq_cons_iff.mp isWords
    obtain ⟨kind, text⟩ := Prod.mk.inj isToken
    refine ⟨remaining, ?_, isRest⟩
    unfold parametersFrom
    rw [if_neg (by rw [kind]; decide), if_pos (by simp [Token.is, kind, text]), List.append_nil]
    rfl
  | cons param others ih =>
    obtain ⟨comma, remaining, rfl, isComma, isMore⟩ := List.map_eq_cons_iff.mp isWords
    obtain ⟨name, remaining, rfl, isName, isRest⟩ := List.map_eq_cons_iff.mp isMore
    obtain ⟨commaKind, commaText⟩ := Prod.mk.inj isComma
    obtain ⟨nameKind, nameText⟩ := Prod.mk.inj isName
    have grown : names ++ [param] ≠ [] := by simp
    obtain ⟨last, gives, isLast⟩ := ih grown isRest
    refine ⟨last, ?_, isLast⟩
    unfold parametersFrom
    dsimp only
    rw [if_neg (by rw [commaKind]; decide),
      if_neg (by simp [Token.is, commaKind, commaText]; decide),
      if_neg (by simpa using some), if_pos (by simp [Token.is, commaKind, commaText]),
      if_neg (by rw [nameKind]; decide), if_neg (not_not.mpr nameKind), nameText, gives,
      List.append_assoc]
    rfl

theorem reads_parameters (params : List Text) :
    Reads parameters
      ((parameterScraps params).filterMap Scrap.word? ++ (.symbol, Text.ofString ")") :: rest) rest
      (· = params) := by
  intro tokens isWords
  rw [run_parameters]
  cases params with
  | nil =>
    obtain ⟨token, remaining, rfl, isToken, isRest⟩ := List.map_eq_cons_iff.mp isWords
    obtain ⟨kind, text⟩ := Prod.mk.inj isToken
    refine ⟨[], remaining, ?_, isRest, rfl⟩
    unfold parametersFrom
    rw [if_neg (by rw [kind]; decide), if_pos (by simp [Token.is, kind, text])]
    rfl
  | cons first others =>
    rw [words_parameterScraps] at isWords
    obtain ⟨name, remaining, rfl, isName, isMore⟩ := List.map_eq_cons_iff.mp isWords
    obtain ⟨kind, text⟩ := Prod.mk.inj isName
    obtain ⟨last, gives, isLast⟩ := parametersFrom_behind (List.cons_ne_nil first []) isMore
    refine ⟨first :: others, last, ?_, isLast, rfl⟩
    unfold parametersFrom
    dsimp only
    rw [if_neg (by rw [kind]; decide), if_neg (by simp [Token.is, kind]), if_pos List.isEmpty_nil,
      if_neg (not_not.mpr kind), text, gives]
    rfl

theorem reads_construct {kind : ConstructKind} (known : kind ∈ ConstructKind.known) :
    Reads construct ((constructScraps kind).filterMap Scrap.word? ++ (.endOfLine, []) :: rest)
      ((.endOfLine, []) :: rest) (· = kind) := by
  have names : ∀ kind ∈ ConstructKind.known, ConstructKind.ofName? kind.name = some kind := by
    decide
  unfold constructScraps
  split
  · case isTrue object =>
    refine Reads.peek.bind fun token isWord => ?_
    obtain ⟨isKind, -⟩ := Prod.mk.inj isWord
    rw [if_neg (by rw [isKind]; decide)]
    exact .pure object.symm
  · have single : kindScraps kind = [.word kind.name] := by
      cases kind with
      | unknown beyond => simp [ConstructKind.known] at known
      | object | array | boolean | number => rfl
    rw [single]
    refine Reads.peek.bind fun token isWord => ?_
    obtain ⟨isKind, isText⟩ := Prod.mk.inj isWord
    rw [if_pos isKind, isText]
    refine Reads.skip.bind fun _ _ => ?_
    rw [names kind known]
    exact .pure rfl

/-- The words of a function in full: its name, if it has one, and what follows. -/
theorem filterMap_declarationScraps (declaration : Declaration) :
    (declarationScraps declaration).filterMap Scrap.word? =
      (if declaration.name = [] then [] else [(.identifier, declaration.name)]) ++
        (.symbol, Text.ofString "(") ::
          ((parameterScraps declaration.params).filterMap Scrap.word? ++
            (.symbol, Text.ofString ")") :: (.symbol, Text.ofString "@") ::
              (.identifier, labelName declaration.entry) ::
                (constructScraps declaration.constructs).filterMap Scrap.word?) := by
  have name : (if declaration.name = [] then [] else [Scrap.word declaration.name]).filterMap
      Scrap.word? =
      if declaration.name = [] then [] else [(.identifier, declaration.name)] := by
    split <;> rfl
  rw [declarationScraps, List.filterMap_append, name]
  show _ ++ (.symbol, Text.ofString "(") :: List.filterMap Scrap.word? (_ ++ _) = _
  rw [List.filterMap_append]
  rfl

/-- The words of a function behind its name, up to the end of the line. -/
def declarationWords (declaration : Declaration) (rest : List Word) : List Word :=
  (.symbol, Text.ofString "(") :: ((parameterScraps declaration.params).filterMap Scrap.word? ++
    (.symbol, Text.ofString ")") :: (.symbol, Text.ofString "@") ::
      (.identifier, labelName declaration.entry) ::
        ((constructScraps declaration.constructs).filterMap Scrap.word? ++
          (.endOfLine, []) :: rest))

theorem words_declarationScraps (declaration : Declaration) (rest : List Word) :
    (declarationScraps declaration).filterMap Scrap.word? ++ (.endOfLine, []) :: rest =
      (if declaration.name = [] then [] else [(.identifier, declaration.name)]) ++
        declarationWords declaration rest := by
  rw [filterMap_declarationScraps, declarationWords]
  simp only [List.append_assoc, List.cons_append]

theorem reads_declaration {declaration : Declaration} (spelt : declaration.Spelt) :
    Reads (Assembly.declaration declaration.name) (declarationWords declaration rest)
      ((.endOfLine, []) :: rest)
      fun function => function.1 = declaration.unplaced ∧
        function.2.label = labelName declaration.entry := by
  refine Reads.symbol.bind fun _ _ => (reads_parameters _).bind fun params isParams => ?_
  refine Reads.symbol.bind fun _ _ => Reads.identifier.bind fun label isLabel => ?_
  refine (reads_construct spelt.constructs).bind fun kind isKind => ?_
  cases isParams
  cases isKind
  exact .pure ⟨rfl, isLabel⟩

/-! ### Drafts on the way -/

/-- The labels of those addresses below a bound that get one. -/
def labelsBelow (labels : List Int64) (bound : ℕ) : List (Text × ℕ) :=
  ((List.range bound).filter fun address => labels.contains (Int64.ofNat address)).map
    fun address => (labelName (Int64.ofNat address), address)

/-- A draft holds the start of a program: some of its instructions, in which the jumps to labels
are still to be linked, the labels below a bound, and the functions met so far. -/
structure Draft.Holds (draft : Draft) (program : Program) (before : List (Instruction ℕ))
    (bound : ℕ) : Prop where
  size : draft.code.size = before.length
  code : ∀ pc instruction, before[pc]? = some instruction →
    ∃ jump, draft.code[pc]? = some { instruction with jump } ∧
      (jump = instruction.jump ∨ pc ∈ draft.jumps.map Prod.fst)
  jumps : ∀ use ∈ draft.jumps, ∃ instruction, before[use.1]? = some instruction ∧
    instruction.opcode.isJump = true ∧
    labelled program.size (ProgramOf.jumpTarget use.1 instruction) = true ∧
    use.2.label = labelName (ProgramOf.jumpTarget use.1 instruction)
  labels : draft.labels = labelsBelow (targets program.snapshot) bound
  functions : draft.functions.toList.map (fun function => (function.1, function.2.label)) =
    (program.items.toList.take (reach (functionsUsed before))).map
      fun declaration => (declaration.unplaced, labelName declaration.entry)
  entry : draft.entry.map LabelUse.label =
    if program.start = 0 then none else some (labelName program.start)
  stop : draft.stop.map LabelUse.label =
    if program.stop = program.size then none else some (labelName program.stop)

namespace Draft.Holds

variable {program : Program} {before : List (Instruction ℕ)} {bound : ℕ} {draft : Draft}

/-- The functions of a draft are found by the names that the program has for them. -/
theorem function?_eq (holds : draft.Holds program before bound) (name : Text) :
    draft.function? name =
      (program.items.toList.take (reach (functionsUsed before))).findIdx? (·.name = name) := by
  have names := congrArg (List.map fun pair => pair.1.name) holds.functions
  rw [List.map_map, List.map_map] at names
  have left : draft.function? name = (draft.functions.toList.map fun function =>
      function.1.name).findIdx? (· = name) := by
    rw [List.findIdx?_map, ← List.findIdx?_toArray, Array.toArray_toList]
    rfl
  have right : (program.items.toList.take (reach (functionsUsed before))).findIdx? (·.name = name) =
      ((program.items.toList.take (reach (functionsUsed before))).map fun declaration =>
        declaration.name).findIdx? (· = name) := by
    rw [List.findIdx?_map]
    rfl
  rw [left, right]
  exact congrArg (List.findIdx? (· = name)) names

theorem size_functions (holds : draft.Holds program before bound)
    (within : reach (functionsUsed before) ≤ program.items.toList.length) :
    draft.functions.size = reach (functionsUsed before) := by
  have lengths := congrArg List.length holds.functions
  rw [List.length_map, List.length_map, List.length_take, min_eq_left within,
    Array.length_toList] at lengths
  exact lengths

end Draft.Holds

/-- A later function with a name does not have that of an earlier one. -/
theorem name_ne_of_pairwise {declarations : List Declaration}
    (distinct : declarations.Pairwise
      fun first second => first.name = [] ∨ first.name ≠ second.name)
    {earlier later : ℕ} {first second : Declaration} (ordered : earlier < later)
    (isFirst : declarations[earlier]? = some first) (isSecond : declarations[later]? = some second)
    (named : second.name ≠ []) : first.name ≠ second.name := by
  obtain ⟨firstBound, rfl⟩ := List.getElem?_eq_some_iff.mp isFirst
  obtain ⟨secondBound, rfl⟩ := List.getElem?_eq_some_iff.mp isSecond
  rcases List.pairwise_iff_getElem.mp distinct _ _ firstBound secondBound ordered with none | other
  · rw [none]
    exact named.symm
  · exact other

section Functions

variable {program : Program} {before : List (Instruction ℕ)} {bound : ℕ} {draft : Draft}
  {index : ℕ} {declaration : Declaration}

theorem function?_earlier (assembled : program.Assembled)
    (holds : draft.Holds program before bound)
    (found : program.items.toList[index]? = some declaration)
    (earlier : index < reach (functionsUsed before)) (named : declaration.name ≠ []) :
    draft.function? declaration.name = some index := by
  obtain ⟨inside, rfl⟩ := List.getElem?_eq_some_iff.mp found
  rw [holds.function?_eq]
  refine List.findIdx?_eq_some_iff_getElem.mpr ⟨by rw [List.length_take]; omega, ?_, ?_⟩
  · rw [List.getElem_take]
    exact decide_eq_true rfl
  · intro other before
    rw [List.getElem_take, decide_eq_true_eq]
    exact name_ne_of_pairwise assembled.declared.distinct before
      (List.getElem?_eq_getElem (by omega)) found named

theorem function?_next (assembled : program.Assembled)
    (holds : draft.Holds program before bound)
    (found : program.items.toList[reach (functionsUsed before)]? = some declaration)
    (named : declaration.name ≠ []) : draft.function? declaration.name = none := by
  rw [holds.function?_eq]
  refine List.findIdx?_eq_none_iff.mpr fun other member => decide_eq_false ?_
  obtain ⟨place, there⟩ := List.getElem?_of_mem member
  have earlier : place < reach (functionsUsed before) := by
    have inside := (List.getElem?_eq_some_iff.mp there).1
    rw [List.length_take] at inside
    omega
  rw [List.getElem?_take_of_lt earlier] at there
  exact name_ne_of_pairwise assembled.declared.distinct earlier there found named

/-- What reading an operand makes of a draft: it has the first so many functions of a program. -/
def Grows (program : Program) (draft : Draft) (count : ℕ) (after : Draft) : Prop :=
  after = { draft with functions := after.functions } ∧
    after.functions.toList.map (fun function => (function.1, function.2.label)) =
      (program.items.toList.take count).map
        fun declaration => (declaration.unplaced, labelName declaration.entry)

theorem grows_addFunction (holds : draft.Holds program before bound)
    (found : program.items.toList[reach (functionsUsed before)]? = some declaration)
    {function : Declaration × LabelUse} (isDeclaration : function.1 = declaration.unplaced)
    (isLabel : function.2.label = labelName declaration.entry) :
    (draft.addFunction function).2 = reach (functionsUsed before) ∧
      Grows program draft (reach (functionsUsed before) + 1) (draft.addFunction function).1 := by
  have inside := (List.getElem?_eq_some_iff.mp found).1
  refine ⟨holds.size_functions inside.le, rfl, ?_⟩
  rw [Draft.addFunction, Array.toList_push, List.map_append, holds.functions, List.take_add_one,
    found, List.map_append]
  simp [isDeclaration, isLabel]

/-- A draft that `Holds` the start of a program `Reads` a function as the one that was meant. -/
theorem reads_function (assembled : program.Assembled)
    (holds : draft.Holds program before bound)
    (found : program.items.toList[index]? = some declaration)
    (place : index = reach (functionsUsed before) ∨
      index < reach (functionsUsed before) ∧ declaration.name ≠ []) :
    Reads (function draft)
      ((functionScraps (reach (functionsUsed before)) index declaration).filterMap Scrap.word? ++
        (.endOfLine, []) :: rest)
      ((.endOfLine, []) :: rest)
      fun (after, number) => number = index ∧
        Grows program draft (max (reach (functionsUsed before)) (index + 1)) after := by
  have spelt := assembled.declared.spelt declaration (List.mem_of_getElem? found)
  rcases place with rfl | ⟨earlier, named⟩
  · rw [functionScraps, if_pos rfl, words_declarationScraps, max_eq_right (Nat.le_succ _)]
    have added : ∀ function : Declaration × LabelUse, function.1 = declaration.unplaced ∧
        function.2.label = labelName declaration.entry → _ := fun function ⟨first, second⟩ =>
      grows_addFunction holds found first second
    by_cases unnamed : declaration.name = []
    · rw [if_pos unnamed]
      refine Reads.peek.bind fun token isWord => ?_
      obtain ⟨kind, -⟩ := Prod.mk.inj isWord
      rw [if_neg (by rw [kind]; decide)]
      have reads : Reads _ (declarationWords declaration rest) _ _ := reads_declaration spelt
      rw [unnamed] at reads
      refine reads.bind fun function isFunction => ?_
      exact .pure (added function isFunction)
    · rw [if_neg unnamed]
      refine Reads.peek.bind fun token isWord => ?_
      obtain ⟨kind, text⟩ := Prod.mk.inj isWord
      rw [if_pos kind, text]
      refine Reads.skip.bind fun _ _ => Reads.peek.bind fun next isNext => ?_
      obtain ⟨nextKind, nextText⟩ := Prod.mk.inj isNext
      rw [if_pos (by simp [Token.is, nextKind, nextText]),
        function?_next assembled holds found unnamed]
      refine (reads_declaration spelt).bind fun function isFunction => ?_
      exact .pure (added function isFunction)
  · rw [functionScraps, if_neg earlier.ne]
    refine Reads.peek.bind fun token isWord => ?_
    obtain ⟨kind, text⟩ := Prod.mk.inj isWord
    rw [if_pos kind, text]
    refine Reads.skip.bind fun _ _ => Reads.peek.bind fun next isNext => ?_
    obtain ⟨nextKind, -⟩ := Prod.mk.inj isNext
    rw [if_neg (by simp [Token.is, nextKind]),
      function?_earlier assembled holds found earlier named]
    refine .pure ⟨rfl, rfl, ?_⟩
    rw [max_eq_left earlier, holds.functions]

/-! ### Operands -/

theorem reads_word {text : Text} {datum : Datum ℕ} (notFunction : text ≠ Text.ofString "func")
    (isWord : wordDatum? text = some datum) :
    Reads (literal draft) ((.identifier, text) :: rest) rest (· = (draft, datum)) := by
  refine (Reads.next (by decide)).bind fun token ⟨kind, isText⟩ => ?_
  rw [kind, isText]
  dsimp only
  rw [if_neg notFunction, isWord]
  exact .pure rfl

theorem reads_number (value : Float) :
    Reads (literal draft) ([numberScrap .listing value].filterMap Scrap.word? ++ rest) rest
      (· = (draft, .ofNumber value)) := by
  unfold numberScrap
  cases isExact : Number.exact value with
  | finite negative significand exponent =>
    obtain ⟨decimal, read, isValue⟩ := Layout.read?_listing isExact
    refine (Reads.next (by decide)).bind fun token ⟨kind, isText⟩ => ?_
    have number : literalNumber? token.text = some value := by
      unfold literalNumber?
      rw [isText, read, Option.map_some, isValue]
      dsimp only
      rw [Number.isInf_eq_false isExact, if_neg Bool.false_ne_true]
    rw [kind, number]
    exact .pure rfl
  | notANumber =>
    refine reads_word ?_ ?_
    · rw [Layout.write, isExact]
      decide
    · rw [Layout.write, isExact, Number.eq_notANumber isExact]
      rfl
  | infinite negative =>
    refine reads_word ?_ ?_
    · rw [Layout.write, isExact]
      cases negative <;> decide
    · rw [Layout.write, isExact, Number.eq_infinity isExact]
      cases negative <;> rfl

/-- A draft that `Holds` the start of a program reads the operand of a push as what it was. -/
theorem reads_literal (assembled : program.Assembled)
    (holds : draft.Holds program before bound) {datum : Datum ℕ} (isLiteral : datum.Literal)
    (known : ∀ index, datum = .ofObject (some index) →
      Known program.items.toList (reach (functionsUsed before)) index) :
    Reads (literal draft)
      ((literalScraps program (reach (functionsUsed before)) datum).filterMap Scrap.word? ++
        (.endOfLine, []) :: rest)
      ((.endOfLine, []) :: rest)
      fun (after, found) => found = datum ∧
        Grows program draft (metAfter (reach (functionsUsed before)) { datum }) after := by
  have same : Grows program draft (reach (functionsUsed before)) draft := ⟨rfl, holds.functions⟩
  cases isLiteral with
  | null => exact (reads_word (by decide) rfl).mono fun _ isPair => isPair ▸ ⟨rfl, same⟩
  | number value => exact (reads_number value).mono fun _ isPair => isPair ▸ ⟨rfl, same⟩
  | text value =>
    refine (Reads.next (by decide)).bind ?_
    rintro token ⟨kind, isText⟩
    rw [kind, isText]
    exact .pure ⟨rfl, same⟩
  | bool value =>
    cases value <;>
    exact (reads_word (by decide) rfl).mono fun _ isPair => isPair ▸ ⟨rfl, same⟩
  | object index =>
    obtain ⟨declaration, found, place⟩ := known index rfl
    rw [literalScraps_ofObject program _ found]
    refine (Reads.next (by decide)).bind ?_
    rintro token ⟨kind, isText⟩
    rw [kind]
    dsimp only
    rw [if_pos isText]
    refine (reads_function assembled holds found place).bind ?_
    rintro ⟨after, number⟩ ⟨isIndex, grows⟩
    rw [isIndex]
    exact .pure ⟨rfl, grows⟩

theorem reads_name {word : Word} {datum : Datum ℕ}
    (isName : word.1 = .identifier ∧ datum = .ofName word.2 ∨
      word.1 = .text ∧ datum = .ofText word.2) :
    Reads nameDatum (word :: rest) rest (· = datum) := by
  obtain ⟨kind, text⟩ := word
  rcases isName with ⟨rfl, rfl⟩ | ⟨rfl, rfl⟩ <;>
  · refine (Reads.next (by decide)).bind fun token ⟨isKind, isText⟩ => ?_
    rw [isKind, isText]
    exact .pure rfl

theorem reads_count {count : ℕ} (counts : Number.Counts count) :
    Reads countDatum
      ([.blank ' ', numberScrap .value (Number.ofNat count)].filterMap Scrap.word? ++ rest) rest
      (· = .ofNumber (Number.ofNat count)) := by
  obtain ⟨read, range⟩ := counts
  have isCount : (Int64.ofNat count).toInt = count := Int64.toInt_ofNat_of_lt range
  have natural : ¬ Int64.ofNat count < 0 := by
    rw [Int64.lt_iff_toInt_lt, isCount]
    exact not_lt.mpr (Int.natCast_nonneg count)
  have clamped : (Int64.ofNat count).toNatClampNeg = count := by
    rw [Int64.toNatClampNeg, isCount, Int.toNat_natCast]
  have isWord : [.blank ' ', numberScrap .value (Number.ofNat count)].filterMap Scrap.word? =
      [(.number, Layout.value.write (Number.ofNat count))] := by
    unfold numberScrap
    cases isExact : Number.exact (Number.ofNat count) with
    | finite negative significand exponent => rfl
    | notANumber =>
      rw [Layout.write, isExact] at read
      cases (read.symm.trans rfl : some _ = none)
    | infinite negative =>
      rw [Layout.write, isExact] at read
      cases negative <;> cases (read.symm.trans rfl : some _ = none)
  rw [isWord]
  refine Reads.number.bind fun token isText => ?_
  rw [isText, read]
  dsimp only
  rw [if_neg natural, clamped]
  exact .pure rfl

theorem reads_label {label : Text} :
    Reads jumpTarget ((.symbol, Text.ofString "@") :: (.identifier, label) :: rest) rest
      fun target => ∃ use, target = .inl use ∧ use.label = label := by
  refine (Reads.next (by decide)).bind fun token ⟨kind, text⟩ => ?_
  rw [if_pos (by simp [Token.is, kind, text])]
  exact Reads.identifier.bind fun name isName => .pure ⟨name.labelUse, rfl, isName⟩

theorem reads_offset (offset : Int64) :
    Reads jumpTarget ((.number, Text.ofInt offset.toInt) :: rest) rest (· = .inr offset) := by
  refine (Reads.next (by decide)).bind fun token ⟨kind, text⟩ => ?_
  rw [if_neg (by simp [Token.is, kind]), if_pos kind, text, Text.int64?_ofInt]
  exact .pure rfl

/-! ### Instructions -/

/-- An instruction is added to the start of a program that a draft `Holds`: it has its offset, or a
label that stands for it. -/
theorem Draft.Holds.snoc (holds : draft.Holds program before bound) {instruction : Instruction ℕ}
    {functions : Array (Declaration × LabelUse)} {jumps : List (ℕ × LabelUse)} {jump : Int64}
    (grown : functions.toList.map (fun function => (function.1, function.2.label)) =
      (program.items.toList.take (metAfter (reach (functionsUsed before)) instruction)).map
        fun declaration => (declaration.unplaced, labelName declaration.entry))
    (linked : jumps = draft.jumps ∧ jump = instruction.jump ∨
      ∃ use, jumps = draft.jumps ++ [(before.length, use)] ∧ instruction.opcode.isJump = true ∧
        labelled program.size (ProgramOf.jumpTarget before.length instruction) = true ∧
        use.label = labelName (ProgramOf.jumpTarget before.length instruction)) :
    (Draft.addInstruction { draft with functions, jumps } { instruction with jump }).Holds program
      (before ++ [instruction]) bound where
  size := by
    rw [Draft.addInstruction, Array.size_push, List.length_append, holds.size]
    rfl
  code := by
    intro pc other there
    have more : ∀ {pc : ℕ}, pc ∈ draft.jumps.map Prod.fst → pc ∈ jumps.map Prod.fst := by
      intro pc member
      rcases linked with ⟨rfl, -⟩ | ⟨use, rfl, -⟩
      · exact member
      · rw [List.map_append]
        exact List.mem_append_left _ member
    rcases Nat.lt_or_ge pc before.length with earlier | last
    · rw [List.getElem?_append_left earlier] at there
      obtain ⟨offset, found, kinds⟩ := holds.code pc other there
      refine ⟨offset, ?_, kinds.imp_right more⟩
      rw [Draft.addInstruction, Array.getElem?_push_lt (holds.size ▸ earlier),
        ← Array.getElem?_eq_getElem]
      exact found
    · have inside := (List.getElem?_eq_some_iff.mp there).1
      rw [List.length_append, List.length_singleton] at inside
      obtain rfl : pc = before.length := by omega
      rw [List.getElem?_concat_length] at there
      cases there
      refine ⟨jump, ?_, ?_⟩
      · rw [Draft.addInstruction, ← holds.size, Array.getElem?_push_size]
      · rcases linked with ⟨-, same⟩ | ⟨use, rfl, -⟩
        · exact .inl same
        · exact .inr (by simp [Draft.addInstruction])
  jumps := by
    have earlier : ∀ use ∈ draft.jumps, ∃ other, (before ++ [instruction])[use.1]? = some other ∧
        other.opcode.isJump = true ∧
        labelled program.size (ProgramOf.jumpTarget use.1 other) = true ∧
        use.2.label = labelName (ProgramOf.jumpTarget use.1 other) := by
      intro use member
      obtain ⟨other, there, facts⟩ := holds.jumps use member
      refine ⟨other, ?_, facts⟩
      rw [List.getElem?_append_left (List.getElem?_eq_some_iff.mp there).1, there]
    rcases linked with ⟨rfl, -⟩ | ⟨use, rfl, isJump, isLabelled, isLabel⟩
    · exact earlier
    · refine List.forall_mem_append.mpr ⟨earlier, List.forall_mem_singleton.mpr ?_⟩
      exact ⟨instruction, List.getElem?_concat_length, isJump, isLabelled, isLabel⟩
  labels := holds.labels
  functions := by
    rw [reach_functionsUsed_snoc]
    exact grown
  entry := holds.entry
  stop := holds.stop

/-- A draft that `Holds` the start of a program reads an instruction as what it was, but for an
offset that is still to be linked. -/
theorem reads_instruction (assembled : program.Assembled) (counts : program.Counts)
    (holds : draft.Holds program before bound) {instruction : Instruction ℕ}
    {after : List (Instruction ℕ)} (split : program.code.toList = before ++ instruction :: after) :
    Reads (Assembly.instruction draft instruction.opcode)
      ((operandScraps program (reach (functionsUsed before)) before.length instruction).filterMap
        Scrap.word? ++ (.endOfLine, []) :: rest)
      ((.endOfLine, []) :: rest) (·.Holds program (before ++ [instruction]) bound) := by
  have member : instruction ∈ program.code.toList := by simp [split]
  obtain ⟨valid, noJump, suits⟩ := assembled.code instruction member
  have exists_count := counts instruction member
  have known : ∀ index, instruction.function? = some index →
      Known program.items.toList (reach (functionsUsed before)) index :=
    fun index => assembled.listed.known split
  obtain ⟨opcode, jump, datum⟩ := instruction
  -- an operand that pushes no function leaves the functions as they are
  have plain : ∀ {datum : Datum ℕ}, Instruction.function? { opcode, jump, datum } = none →
      draft.functions.toList.map (fun function => (function.1, function.2.label)) =
        (program.items.toList.take (metAfter (reach (functionsUsed before))
          { opcode, jump, datum })).map
          fun declaration => (declaration.unplaced, labelName declaration.entry) := by
    intro datum unused
    rw [metAfter, unused]
    exact holds.functions
  unfold Assembly.instruction operandScraps
  dsimp only at noJump suits exists_count ⊢
  generalize isClass : opcode.operandClass = operand at noJump suits exists_count
  cases operand with
  | none =>
    cases suits
    cases noJump (by decide)
    exact .pure (holds.snoc (plain rfl) (.inl ⟨rfl, rfl⟩))
  | name =>
    cases noJump (by decide)
    obtain ⟨text, rfl | rfl⟩ := suits
    · refine (reads_name (.inl ⟨rfl, rfl⟩)).bind ?_
      rintro _ rfl
      exact .pure (holds.snoc (plain rfl) (.inl ⟨rfl, rfl⟩))
    · refine (reads_name (.inr ⟨rfl, rfl⟩)).bind ?_
      rintro _ rfl
      exact .pure (holds.snoc (plain rfl) (.inl ⟨rfl, rfl⟩))
  | count =>
    cases noJump (by decide)
    obtain ⟨count, rfl, isCount⟩ := exists_count rfl
    refine (reads_count isCount).bind ?_
    rintro _ rfl
    exact .pure (holds.snoc (plain rfl) (.inl ⟨rfl, rfl⟩))
  | jump =>
    cases suits
    dsimp only
    split
    · case isTrue isLabelled =>
      refine reads_label.bind ?_
      rintro _ ⟨use, rfl, isLabel⟩
      exact .pure (holds.snoc (plain rfl) (.inr ⟨use, by rw [holds.size],
        Opcode.operandClass_eq_jump.mp isClass, isLabelled, isLabel⟩))
    · refine (reads_offset jump).bind ?_
      rintro _ rfl
      exact .pure (holds.snoc (plain rfl) (.inl ⟨rfl, rfl⟩))
  | literal =>
    cases noJump (by decide)
    have pushed : ∀ index, datum = .ofObject (some index) →
        Known program.items.toList (reach (functionsUsed before)) index :=
      fun index isObject => known index (by rw [Instruction.function?, isObject]; rfl)
    refine (reads_literal assembled holds suits pushed).bind ?_
    · rintro ⟨after, found⟩ ⟨isDatum, same, grown⟩
      have grown : _ = (program.items.toList.take (metAfter (reach (functionsUsed before))
          { opcode, datum })).map _ := grown
      rw [isDatum, same]
      exact .pure (holds.snoc grown (.inl ⟨rfl, rfl⟩))

/-! ### Rows -/

/-- Reading some rows makes one draft of another. -/
def Drafts (rows : List Row) (Before After : Draft → Prop) : Prop :=
  ∀ draft, Before draft → ∀ lines more : List (List Token),
    lines.map (·.map Token.word) = rows.map (fun row => row.words ++ [(.endOfLine, [])]) →
      ∃ after, readLines draft (lines ++ more) = readLines after more ∧ After after

namespace Drafts

variable {Before Middle After : Draft → Prop}

theorem nil (implies : ∀ draft, Before draft → After draft) : Drafts [] Before After := by
  intro draft holds lines more isLines
  rw [List.map_eq_nil_iff.mp isLines]
  exact ⟨draft, rfl, implies draft holds⟩

theorem append {first second : List Row} (reads : Drafts first Before Middle)
    (later : Drafts second Middle After) : Drafts (first ++ second) Before After := by
  intro draft holds lines more isLines
  rw [List.map_append, List.map_eq_append_iff] at isLines
  obtain ⟨front, behind, rfl, isFront, isBehind⟩ := isLines
  obtain ⟨middle, toMiddle, holdsMiddle⟩ := reads draft holds front (behind ++ more) isFront
  obtain ⟨after, toAfter, holdsAfter⟩ := later middle holdsMiddle behind more isBehind
  exact ⟨after, by rw [List.append_assoc, toMiddle, toAfter], holdsAfter⟩

theorem single {row : Row} (reads : ∀ draft, Before draft →
    Reads (line draft) (row.words ++ [(.endOfLine, [])]) [] After) :
    Drafts [row] Before After := by
  intro draft holds lines more isLines
  obtain ⟨tokens, rfl, isTokens⟩ := List.map_eq_singleton_iff.mp isLines
  obtain ⟨after, remaining, gives, -, holdsAfter⟩ := reads draft holds tokens isTokens
  refine ⟨after, ?_, holdsAfter⟩
  rw [List.singleton_append, readLines_cons, gives]

theorem cons {row : Row} {others : List Row} (reads : ∀ draft, Before draft →
    Reads (line draft) (row.words ++ [(.endOfLine, [])]) [] Middle)
    (later : Drafts others Middle After) : Drafts (row :: others) Before After :=
  (single reads).append later

end Drafts

/-- A line whose first word no colon follows is a statement. -/
theorem reads_statement {text : Text} {word : Word} {words rest : List Word}
    {Good : Draft → Prop} (notLabel : word ≠ (.symbol, Text.ofString ":"))
    (reads : ∀ token : Token, token.text = text →
      Reads (statement draft token) (word :: words) rest Good) :
    Reads (line draft) ((.identifier, text) :: word :: words) rest Good := by
  refine Reads.firstWord?_identifier.bind fun found ⟨token, isToken, isText⟩ => ?_
  rw [isToken]
  refine Reads.peek.bind fun next isNext => ?_
  have noColon : ¬ next.is .symbol (Text.ofString ":") = true := by
    intro colon
    simp only [Token.is, Bool.and_eq_true, decide_eq_true_eq] at colon
    exact notLabel (isNext.symm.trans (Prod.ext colon.1 colon.2))
  rw [if_neg noColon]
  exact reads token isText

/-- No operand starts with a colon. -/
theorem exists_operandWords (program : Program) (met pc : ℕ) (instruction : Instruction ℕ) :
    ∃ word words, (operandScraps program met pc instruction).filterMap Scrap.word? ++
      [(.endOfLine, [])] = word :: words ∧ word ≠ (.symbol, Text.ofString ":") := by
  unfold operandScraps literalScraps numberScrap
  split
  · exact ⟨_, _, rfl, by simp⟩
  · split <;> exact ⟨_, _, rfl, by simp⟩
  · split <;> exact ⟨_, _, rfl, by simp⟩
  · dsimp only
    split
    · exact ⟨_, _, rfl, by decide⟩
    · exact ⟨_, _, rfl, by simp⟩
  · split
    · split <;> exact ⟨_, _, rfl, by simp⟩
    · exact ⟨_, _, rfl, by simp⟩
    · exact ⟨_, _, rfl, by simp⟩
    · exact ⟨_, _, rfl, by simp⟩
    · split <;> exact ⟨_, _, rfl, by simp⟩
    · exact ⟨_, _, rfl, by simp⟩
    · exact ⟨_, _, rfl, by simp⟩

/-- The `instructionRow` of an instruction is read as a line without a label. -/
theorem reads_instructionRow (assembled : program.Assembled) (counts : program.Counts)
    (holds : draft.Holds program before bound) {instruction : Instruction ℕ}
    {after : List (Instruction ℕ)} (split : program.code.toList = before ++ instruction :: after) :
    Reads (line draft)
      ((instructionRow program (reach (functionsUsed before)) before.length instruction).words ++
        [(.endOfLine, [])]) []
      (·.Holds program (before ++ [instruction]) bound) := by
  have member : instruction ∈ program.code.toList := by simp [split]
  have valid := (assembled.code instruction member).opcode
  have names : ∀ opcode ∈ Opcode.valid, opcode.name.head? ≠ some 46 ∧
      Opcode.ofName? opcode.name = some opcode := by decide
  obtain ⟨noDirective, isOpcode⟩ := names instruction.opcode valid
  obtain ⟨word, words, isWords, notLabel⟩ := exists_operandWords program
    (reach (functionsUsed before)) before.length instruction
  show Reads (line draft) ((.identifier, instruction.opcode.name) ::
    ((operandScraps program _ _ instruction).filterMap Scrap.word? ++ [(.endOfLine, [])])) [] _
  rw [isWords]
  refine reads_statement notLabel fun token isText => ?_
  rw [← isWords]
  unfold statement
  dsimp only
  rw [isText, if_neg noDirective, isOpcode]
  refine (reads_instruction assembled counts holds split).bind fun next holdsNext => ?_
  exact (Reads.endOfLine (.inl rfl)).bind fun _ _ => .pure holdsNext

/-! ### Labels -/

theorem labelsBelow_succ (labels : List Int64) (bound : ℕ) :
    labelsBelow labels (bound + 1) = labelsBelow labels bound ++
      if labels.contains (Int64.ofNat bound) then [(labelName (Int64.ofNat bound), bound)]
      else [] := by
  unfold labelsBelow
  rw [List.range_succ, List.filter_append, List.map_append]
  refine congrArg _ ?_
  split <;> simp_all

theorem labelName_inj {first second : ℕ} (firstSmall : first < 2 ^ 63)
    (secondSmall : second < 2 ^ 63) :
    labelName (Int64.ofNat first) = labelName (Int64.ofNat second) ↔ first = second := by
  unfold labelName
  rw [List.cons_inj_right, Text.ofInt_inj, Int64.toInt_ofNat_of_lt firstSmall,
    Int64.toInt_ofNat_of_lt secondSmall, Nat.cast_inj]

/-- A label below the bound is found at its address in `labelsBelow`. -/
theorem lookup_labelsBelow (labels : List Int64) {bound address : ℕ} (bounded : bound ≤ 2 ^ 63)
    (small : address < 2 ^ 63) :
    (labelsBelow labels bound).lookup (labelName (Int64.ofNat address)) =
      if address < bound ∧ labels.contains (Int64.ofNat address) = true then some address
      else none := by
  induction bound with
  | zero => rfl
  | succ bound ih =>
    have same := labelName_inj small (show bound < 2 ^ 63 by omega)
    rw [labelsBelow_succ, List.lookup_append, ih (by omega)]
    by_cases here : address = bound
    · subst here
      rw [if_neg (by omega), Option.none_or]
      by_cases used : labels.contains (Int64.ofNat address) = true
      · rw [if_pos used, if_pos ⟨Nat.lt_succ_self _, used⟩, List.lookup_cons, beq_self_eq_true]
      · rw [if_neg used, if_neg fun both => used both.2]
        rfl
    · have other : (labelName (Int64.ofNat address) == labelName (Int64.ofNat bound)) = false :=
        beq_eq_false_iff_ne.mpr (mt same.mp here)
      have last : (if labels.contains (Int64.ofNat bound) then
          [(labelName (Int64.ofNat bound), bound)] else []).lookup
            (labelName (Int64.ofNat address)) = none := by
        split
        · rw [List.lookup_cons, other]
          rfl
        · rfl
      have below : address < bound ↔ address < bound + 1 := by omega
      rw [last, Option.or_none]
      exact if_congr (and_congr_left' below) rfl rfl

theorem reads_labelRow {label : Text} (fresh : draft.address? label = none) :
    Reads (line draft) (Row.words [.word label, .symbol ':'] ++ [(.endOfLine, [])]) []
      (· = { draft with labels := draft.labels ++ [(label, draft.code.size)] }) := by
  refine Reads.firstWord?_identifier.bind fun found ⟨token, isToken, isText⟩ => ?_
  rw [isToken]
  refine Reads.peek.bind fun next isNext => ?_
  obtain ⟨kind, text⟩ := Prod.mk.inj isNext
  have colon : next.is .symbol (Text.ofString ":") = true := by
    simp only [Token.is, kind, Bool.and_eq_true, decide_eq_true_eq, true_and]
    exact text
  rw [if_pos colon, isText]
  refine Reads.skip.bind fun _ _ => ?_
  dsimp only
  rw [fresh, if_neg (by simp)]
  refine (Reads.firstWord?_end (.inl rfl)).bind ?_
  rintro _ rfl
  exact .pure rfl

theorem drafts_labelRows (small : bound < 2 ^ 63) (place : before.length = bound) :
    Drafts (labelRows (targets program.snapshot) (Int64.ofNat bound))
      (·.Holds program before bound) (·.Holds program before (bound + 1)) := by
  have more := labelsBelow_succ (targets program.snapshot) bound
  unfold labelRows
  split
  · case isTrue used =>
    rw [if_pos used] at more
    refine .single fun draft holds => (reads_labelRow ?_).mono ?_
    · rw [Draft.address?, holds.labels, lookup_labelsBelow _ small.le small, if_neg (by omega)]
    · rintro _ rfl
      refine { holds with labels := ?_ }
      dsimp only
      rw [more, holds.labels, holds.size, place]
  · case isFalse unused =>
    rw [if_neg unused, List.append_nil] at more
    exact .nil fun draft holds => { holds with labels := by rw [more, holds.labels] }

/-- Reading the `bodyRows`, by `Drafts`, gives each address its label, and then its instruction. -/
theorem drafts_bodyRows (assembled : program.Assembled) (counts : program.Counts)
    (small : program.code.size < 2 ^ 63) (before rest : List (Instruction ℕ))
    (split : program.code.toList = before ++ rest) :
    Drafts (bodyRows program (targets program.snapshot) (reach (functionsUsed before))
        (numberedFrom before.length rest))
      (·.Holds program before before.length)
      (·.Holds program program.code.toList program.code.size) := by
  have length : program.code.size = before.length + rest.length := by
    rw [← Array.length_toList, split, List.length_append]
  induction rest generalizing before with
  | nil =>
    rw [List.append_nil] at split
    rw [← Array.length_toList, split]
    exact .nil fun _ => id
  | cons instruction rest ih =>
    rw [List.length_cons] at length
    have later := ih (before ++ [instruction]) (by simp [split])
      (by rw [List.length_append, List.length_singleton]; omega)
    rw [reach_functionsUsed_snoc, List.length_append, List.length_singleton] at later
    rw [numberedFrom_cons, bodyRows]
    refine (drafts_labelRows (by omega) rfl).append (.cons (fun draft holds => ?_) later)
    exact reads_instructionRow assembled counts holds split

/-! ### Directives -/

/-- A draft in front of the instructions: it holds nothing but the labels of directives. -/
def Opening (entry stop : Option Text) (draft : Draft) : Prop :=
  ∃ first last, draft = { entry := first, stop := last } ∧ first.map LabelUse.label = entry ∧
    last.map LabelUse.label = stop

theorem reads_entry {stop : Option Text} (opening : Opening none stop draft) (label : Text) :
    Reads (line draft)
      (Row.words [.word (Text.ofString ".entry"), .blank ' ', .word label] ++ [(.endOfLine, [])]) []
      (Opening (some label) stop) := by
  obtain ⟨first, last, rfl, -, isLast⟩ := opening
  refine reads_statement (by simp) fun token isText => ?_
  have reads : Reads (directive { entry := first, stop := last } token)
      [(.identifier, label), (.endOfLine, [])] [(.endOfLine, [])] (Opening (some label) stop) := by
    refine Reads.identifier.bind fun name isName => ?_
    rw [isText, if_pos rfl]
    exact .pure ⟨some name.labelUse, last, rfl, congrArg some isName, isLast⟩
  unfold statement
  dsimp only
  rw [isText, if_pos (by decide)]
  exact reads.bind fun after isOpening =>
    (Reads.endOfLine (.inl rfl)).bind fun _ _ => .pure isOpening

theorem reads_stop {entry : Option Text} (opening : Opening entry none draft) (label : Text) :
    Reads (line draft)
      (Row.words [.word (Text.ofString ".end"), .blank ' ', .word label] ++ [(.endOfLine, [])]) []
      (Opening entry (some label)) := by
  obtain ⟨first, last, rfl, isFirst, -⟩ := opening
  refine reads_statement (by simp) fun token isText => ?_
  have reads : Reads (directive { entry := first, stop := last } token)
      [(.identifier, label), (.endOfLine, [])] [(.endOfLine, [])] (Opening entry (some label)) := by
    refine Reads.identifier.bind fun name isName => ?_
    rw [isText, if_neg (by decide), if_pos rfl]
    exact .pure ⟨first, some name.labelUse, rfl, isFirst, congrArg some isName⟩
  unfold statement
  dsimp only
  rw [isText, if_pos (by decide)]
  exact reads.bind fun after isOpening =>
    (Reads.endOfLine (.inl rfl)).bind fun _ _ => .pure isOpening

theorem Opening.holds
    (opening : Opening (if program.start = 0 then none else some (labelName program.start))
      (if program.stop = program.size then none else some (labelName program.stop)) draft) :
    draft.Holds program [] 0 := by
  obtain ⟨first, last, rfl, isFirst, isLast⟩ := opening
  exact {
    size := rfl
    code := fun pc instruction found => nomatch found
    jumps := List.forall_mem_nil _
    labels := rfl
    functions := rfl
    entry := isFirst
    stop := isLast }

/-- Reading the `directiveRows`, by `Drafts`, gives the bounds. -/
theorem drafts_directiveRows (program : Program) :
    Drafts (directiveRows ".entry" program.start 0 ++
        directiveRows ".end" program.stop program.size)
      (· = {}) (·.Holds program [] 0) := by
  have entry : Drafts (directiveRows ".entry" program.start 0) (· = {})
      (Opening (if program.start = 0 then none else some (labelName program.start)) none) := by
    have blank : Opening none none {} := ⟨none, none, rfl, rfl, rfl⟩
    unfold directiveRows
    split
    · exact .nil fun draft isEmpty => isEmpty ▸ blank
    · exact .single fun draft isEmpty => reads_entry (isEmpty ▸ blank) _
  refine entry.append ?_
  unfold directiveRows
  split
  · case isTrue whole =>
    exact .nil fun draft opening => Opening.holds (by rwa [if_pos whole])
  · case isFalse part =>
    refine .single fun draft opening => (reads_stop opening _).mono fun after stated => ?_
    exact Opening.holds (by rwa [if_neg part])

/-! ### Whole programs -/

theorem drafts_rows (assembled : program.Assembled) (counts : program.Counts)
    (small : program.code.size < 2 ^ 63) :
    Drafts (rows program) (· = {})
      (·.Holds program program.code.toList (program.code.size + 1)) := by
  unfold rows
  dsimp only
  rw [numbered_snapshot]
  have body := drafts_bodyRows assembled counts small [] program.code.toList rfl
  exact ((drafts_directiveRows program).append body).append
    (drafts_labelRows small Array.length_toList)

/-- The text of a `Plain` program is read to a draft that `Holds` all of it. -/
theorem readLines_rows (assembled : program.Assembled) (plain : program.Plain)
    (counts : program.Counts) (small : program.code.size < 2 ^ 63) :
    ∃ draft, readLines {} (tokenLinesFrom [] (tokens ((rows program).flatMap Row.text))) =
        .ok draft ∧
      draft.Holds program program.code.toList (program.code.size + 1) := by
  have worded : ∀ declaration ∈ program.items.toList, declaration.Worded :=
    fun declaration member => (assembled.declared.spelt declaration member).params
  have words := map_word_tokenLinesFrom (words_tokens (neat_rows assembled.listed plain worded))
  obtain ⟨lines, last, isLines, areRows, isLast⟩ := List.map_eq_append_iff.mp words
  obtain ⟨tokens, rfl, isEnd⟩ := List.map_eq_singleton_iff.mp isLast
  obtain ⟨draft, reads, holds⟩ := drafts_rows assembled counts small {} rfl lines [tokens] areRows
  refine ⟨draft, ?_, holds⟩
  have finished : Reads (line draft) [(.endOfInput, [])] [] (· = draft) := by
    refine (Reads.firstWord?_end (.inr rfl)).bind ?_
    rintro _ rfl
    exact .pure rfl
  obtain ⟨_, remaining, gives, -, rfl⟩ := finished tokens isEnd
  rw [isLines, reads, readLines_cons, gives]
  rfl

end Functions

end Assembly

end ScriptEngine
