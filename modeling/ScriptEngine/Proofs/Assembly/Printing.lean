/-
This file proves that the listing of an assembled program is the text of the rows of the program
as it is relisted. What is printed of the functions so far and how many of them were met say the
same, and each instruction keeps it so.
-/

import Mathlib
import ScriptEngine.Proofs.Assembly.Sheet

namespace ScriptEngine

open Text (ofChars)

/-- A function as it is listed behind others that use some names. -/
def Declaration.relistedAs (used : List Text) (declaration : Declaration) : Declaration :=
  if declaration.name = [] then declaration
  else { declaration with name := Assembly.freshName used (Assembly.baseName declaration.name) }

namespace Assembly

open Number (Layout)

/-! ### The text of scraps -/

theorem text_parameterScraps (params : List Text) :
    scrapsText (parameterScraps params) = Text.join ", " params := by
  cases params with
  | nil => rfl
  | cons first others =>
    rw [parameterScraps, scrapsText_cons]
    induction others generalizing first with
    | nil => exact List.append_nil _
    | cons second rest ih =>
      have later := ih second
      rw [Text.join, ← later, List.flatMap_cons, scrapsText_append, List.append_assoc]
      simp only [scrapsText, List.flatMap_cons, List.flatMap_nil, List.append_nil,
    List.append_assoc]
      rfl

theorem text_declarationScraps (declaration : Declaration) :
    scrapsText (declarationScraps declaration) =
      declarationText declaration.name declaration := by
  have name : scrapsText (if declaration.name = [] then [] else [.word declaration.name]) =
      declaration.name := by
    split
    · case isTrue none => exact none.symm
    · exact List.append_nil _
  have kind : scrapsText (constructScraps declaration.constructs) =
      if declaration.constructs = .object then [] else 32 :: declaration.constructs.name := by
    have name : scrapsText (kindScraps declaration.constructs) = declaration.constructs.name := by
      cases declaration.constructs with
      | unknown beyond => rfl
      | object | array | boolean | number => exact List.append_nil _
    unfold constructScraps
    split
    · rfl
    · exact congrArg (32 :: ·) name
  unfold declarationScraps declarationText
  rw [← text_parameterScraps, ← kind, scrapsText_append, name, scrapsText_cons, scrapsText_append,
    scrapsText_cons, scrapsText_cons, scrapsText_cons, scrapsText_cons]
  simp only [List.append_assoc]
  rfl

theorem text_labelRows (labels : List Int64) (address : Int64) :
    (labelRows labels address).flatMap Row.text = labelLine labels address := by
  unfold labelRows labelLine
  split
  · simp only [List.flatMap_cons, List.flatMap_nil, List.append_nil, Row.text_row, scrapsText_cons,
      List.append_assoc]
    rfl
  · rfl

theorem text_directiveRows (word : Text) (bound usual : Int64) :
    (directiveRows word bound usual).flatMap Row.text = directiveLine word bound usual := by
  unfold directiveRows directiveLine
  split
  · rfl
  · simp only [List.flatMap_cons, List.flatMap_nil, List.append_nil, Row.text_row, scrapsText_cons,
      List.append_assoc]
    rfl

/-! ### Functions that were printed -/

theorem take_relistedFrom (used : List Text) (declarations : List Declaration) (met : ℕ) :
    (relistedFrom used declarations).take met = relistedFrom used (declarations.take met) := by
  rcases Nat.le_total declarations.length met with all | some
  · rw [List.take_of_length_le all, List.take_of_length_le (by rwa [length_relistedFrom])]
  · have whole := relistedFrom_append used (declarations.take met) (declarations.drop met)
    rw [List.take_append_drop] at whole
    rw [whole, List.take_left']
    rw [length_relistedFrom, List.length_take, min_eq_left some]

/-- The next function gets a name that those in front do not have. -/
theorem getElem?_relistedFrom_next {declarations : List Declaration} {met : ℕ}
    {declaration : Declaration} (found : declarations[met]? = some declaration) :
    (relistedFrom [] declarations)[met]? =
      some (declaration.relistedAs (namesUsed ((relistedFrom [] declarations).take met))) := by
  obtain ⟨bound, isHere⟩ := List.getElem?_eq_some_iff.mp found
  have front : (relistedFrom [] (declarations.take met)).length = met := by
    rw [length_relistedFrom, List.length_take, min_eq_left bound.le]
  have whole := relistedFrom_append [] (declarations.take met) (declarations.drop met)
  rw [List.take_append_drop, List.drop_eq_getElem_cons bound, isHere, List.nil_append] at whole
  rw [take_relistedFrom, whole, List.getElem?_append_right (by omega), front, Nat.sub_self,
    relistedFrom, Declaration.relistedAs]
  split <;> rfl

/-- What is printed are the functions met so far, with their names. -/
structure Printed.Shows (printed : Printed) (declarations : List Declaration) : Prop where
  used : printed.used = namesUsed declarations
  lookup : ∀ index, printed.names.lookup index =
    (declarations[index]?.map Declaration.name).filter (· ≠ [])

namespace Printed.Shows

variable {printed : Printed} {declarations : List Declaration} {declaration : Declaration}

theorem empty : Shows {} [] := ⟨rfl, fun _ => rfl⟩

theorem unnamed (shows : printed.Shows declarations) (none : declaration.name = []) :
    printed.Shows (declarations ++ [declaration]) where
  used := by
    rw [namesUsed_append, shows.used]
    simp [namesUsed, none]
  lookup := by
    intro index
    rw [shows.lookup]
    rcases Nat.lt_trichotomy index declarations.length with earlier | rfl | later
    · rw [List.getElem?_append_left earlier]
    · simp [none, Option.filter]
    · rw [List.getElem?_eq_none later.le, List.getElem?_eq_none (by simp; omega)]

theorem named (shows : printed.Shows declarations) (filled : declaration.name ≠ []) :
    Shows ⟨printed.names ++ [(declarations.length, declaration.name)]⟩
      (declarations ++ [declaration]) where
  used := by
    have earlier := shows.used
    unfold Printed.used at earlier ⊢
    rw [namesUsed_append, List.map_append, earlier]
    simp [namesUsed, filled]
  lookup := by
    intro index
    have last : [(declarations.length, declaration.name)].lookup index =
        if index = declarations.length then some declaration.name else none := by
      rw [List.lookup_cons]
      split <;> simp_all
    rw [List.lookup_append, shows.lookup, last]
    rcases Nat.lt_trichotomy index declarations.length with earlier | rfl | later
    · rw [List.getElem?_append_left earlier, if_neg earlier.ne, Option.or_none]
    · simp [filled, Option.filter]
    · rw [List.getElem?_eq_none later.le, List.getElem?_eq_none (by simp; omega), if_neg later.ne']
      rfl

end Printed.Shows

/-- The next function is printed as its `declarationScraps`, under its new name. -/
theorem functionText_next {printed : Printed} {declarations : List Declaration}
    (shows : printed.Shows declarations) (declaration : Declaration) :
    ∃ after, functionText printed declarations.length declaration =
        (after, scrapsText (declarationScraps
          (declaration.relistedAs (namesUsed declarations)))) ∧
      after.Shows (declarations ++ [declaration.relistedAs (namesUsed declarations)]) := by
  have unseen : printed.names.lookup declarations.length = none := by
    rw [shows.lookup, List.getElem?_eq_none le_rfl]
    rfl
  unfold functionText
  rw [unseen, text_declarationScraps]
  dsimp only
  by_cases unnamed : declaration.name = []
  · rw [if_pos unnamed, Declaration.relistedAs, if_pos unnamed, unnamed]
    exact ⟨printed, rfl, shows.unnamed unnamed⟩
  · have identifier := isIdentifier_freshName (namesUsed declarations) declaration.name
    rw [if_neg unnamed, Declaration.relistedAs, if_neg unnamed, shows.used, ← baseName]
    generalize freshName (namesUsed declarations) (baseName declaration.name) = name at identifier
    have filled : ({ declaration with name } : Declaration).name ≠ [] :=
      ne_nil_of_isIdentifier identifier
    exact ⟨_, rfl, shows.named filled⟩

/-- A function is printed as the `relistedFrom` functions have it. -/
theorem functionText_eq {declarations : List Declaration} {met index : ℕ} {printed : Printed}
    {declaration : Declaration} (found : declarations[index]? = some declaration)
    (shows : printed.Shows ((relistedFrom [] declarations).take met))
    (place : index = met ∨ index < met ∧ declaration.name ≠ []) :
    ∃ after relisted, (relistedFrom [] declarations)[index]? = some relisted ∧
      functionText printed index declaration =
        (after, scrapsText (functionScraps met index relisted)) ∧
      after.Shows ((relistedFrom [] declarations).take (max met (index + 1))) := by
  have bound := (List.getElem?_eq_some_iff.mp found).1
  rcases place with rfl | ⟨earlier, filled⟩
  · have here := getElem?_relistedFrom_next found
    have length : ((relistedFrom [] declarations).take index).length = index := by
      rw [List.length_take, length_relistedFrom, min_eq_left bound.le]
    obtain ⟨after, text, grown⟩ := functionText_next shows declaration
    rw [length] at text
    refine ⟨after, _, here, ?_, ?_⟩
    · rw [functionScraps, if_pos rfl]
      exact text
    · rw [max_eq_right (Nat.le_succ _), List.take_add_one, here]
      exact grown
  · obtain ⟨name, there, same, -⟩ := getElem?_relistedFrom [] found
    have relistedFilled : name ≠ [] := fun none => filled (same.mp none)
    have seen : printed.names.lookup index = some name := by
      rw [shows.lookup, List.getElem?_take_of_lt earlier, there]
      simp [relistedFilled, Option.filter]
    refine ⟨printed, _, there, ?_, ?_⟩
    · unfold functionText functionScraps
      rw [seen, if_neg earlier.ne]
      exact congrArg (Prod.mk _) (List.append_nil _).symm
    · rwa [max_eq_left earlier]

/-! ### Instructions -/

variable {program : Program}

theorem text_numberScrap (layout : Layout) (value : Float) :
    (numberScrap layout value).text = layout.write value := by
  unfold numberScrap
  split <;> rfl

/-- The operand of a push is printed as its `literalScraps` in the relisted program. -/
theorem literalText_eq {met : ℕ} {printed : Printed} {datum : Datum ℕ}
    (isLiteral : datum.Literal)
    (known : ∀ index, datum = .ofObject (some index) → Known program.items.toList met index)
    (shows : printed.Shows (program.relisted.items.toList.take met)) :
    ∃ after, literalText program.snapshot printed datum =
        .ok (after, scrapsText (literalScraps program.relisted met datum)) ∧
      after.Shows (program.relisted.items.toList.take (metAfter met { datum })) := by
  cases isLiteral with
  | null => exact ⟨printed, rfl, shows⟩
  | number value =>
    refine ⟨printed, ?_, shows⟩
    have text := text_numberScrap .listing value
    show Except.ok (printed, Layout.listing.write value) = _
    rw [← text]
    exact congrArg (fun text => Except.ok (printed, text)) (List.append_nil _).symm
  | text value =>
    exact ⟨printed, congrArg (fun text => Except.ok (printed, text)) (List.append_nil _).symm,
      shows⟩
  | bool value =>
    cases value <;>
    exact ⟨printed, congrArg (fun text => Except.ok (printed, text)) (List.append_nil _).symm,
      shows⟩
  | object index =>
    obtain ⟨declaration, found, place⟩ := known index rfl
    obtain ⟨after, relisted, there, text, grown⟩ := functionText_eq found shows place
    refine ⟨after, ?_, grown⟩
    have item : (program.snapshot.item? (.ofObject (some index))).bind Embedded.declaration? =
        some declaration := by
      rw [Array.getElem?_toList] at found
      simp [ProgramOf.item?, Program.snapshot, Datum.ofObject, found, Embedded.declaration?]
    unfold literalText
    rw [item, literalScraps_ofObject program.relisted met there]
    show Except.ok ((functionText printed index declaration).1, Text.ofString "func " ++
      (functionText printed index declaration).2) = _
    rw [text]
    rfl

/-- An instruction is printed as its `instructionRow` in the relisted program. -/
theorem instructionText_eq {met : ℕ} (pc : ℕ) {printed : Printed} {instruction : Instruction ℕ}
    (listed : instruction.datum.Listed instruction.opcode.operandClass)
    (known : ∀ index, instruction.function? = some index → Known program.items.toList met index)
    (shows : printed.Shows (program.relisted.items.toList.take met)) :
    ∃ after, instructionText program.snapshot printed pc instruction =
        .ok (after, instruction.opcode.name ++
          scrapsText (operandScraps program.relisted met pc instruction.relisted)) ∧
      after.Shows (program.relisted.items.toList.take (metAfter met instruction)) := by
  have size : program.relisted.size = program.snapshot.size := by
    unfold ProgramOf.size Program.relisted
    rw [Array.size_map]
    rfl
  have one : ∀ scrap : Scrap, scrapsText [.blank ' ', scrap] = 32 :: scrap.text :=
    fun scrap => congrArg (32 :: ·) (List.append_nil _)
  unfold instructionText operandScraps
  rw [show instruction.relisted.opcode = instruction.opcode from rfl]
  generalize isClass : instruction.opcode.operandClass = operand at listed
  cases operand with
  | none =>
    have plain : instruction.datum = {} := listed
    refine ⟨printed, ?_, ?_⟩
    · exact congrArg (fun text => Except.ok (printed, text)) (List.append_nil _).symm
    · rwa [metAfter, Instruction.function?, plain]
  | name =>
    obtain ⟨text, isDatum⟩ := listed
    have unused : instruction.function? = none := by
      rw [Instruction.function?]
      rcases isDatum with isDatum | isDatum <;> rw [isDatum] <;> rfl
    refine ⟨printed, ?_, by rwa [metAfter, unused]⟩
    rw [one]
    refine congrArg (fun text => Except.ok (printed, instruction.opcode.name ++ 32 :: text)) ?_
    unfold Instruction.relisted nameText
    dsimp only
    rcases isDatum with isDatum | isDatum
    · rw [isDatum]
      cases identifier : isIdentifier text <;>
      simp [Datum.relisted, Datum.ofName, Datum.ofText, identifier, Scrap.text]
    · rw [isDatum]
      rfl
  | count =>
    obtain ⟨value, isDatum⟩ := listed
    have unused : instruction.function? = none := by
      rw [Instruction.function?, isDatum]
      rfl
    refine ⟨printed, ?_, by rwa [metAfter, unused]⟩
    rw [one, text_numberScrap, Instruction.relisted, isDatum]
    rfl
  | jump =>
    have plain : instruction.datum = {} := listed
    refine ⟨printed, ?_, by rwa [metAfter, Instruction.function?, plain]⟩
    rw [size]
    dsimp only
    rw [show ProgramOf.jumpTarget pc instruction.relisted =
      ProgramOf.jumpTarget pc instruction from rfl]
    split
    · have label : scrapsText [.blank ' ', .symbol '@',
          .word (labelName (ProgramOf.jumpTarget pc instruction))] =
          Text.ofString " @" ++ labelName (ProgramOf.jumpTarget pc instruction) :=
        congrArg (32 :: 64 :: ·) (List.append_nil _)
      rw [label, ← List.append_assoc]
      rfl
    · rw [one]
      rfl
  | literal =>
    have same : instruction.datum.relisted = instruction.datum := by
      refine Datum.relisted_of_ne fun name => ?_
      generalize instruction.datum = datum at listed name
      cases listed <;> cases name
    obtain ⟨after, text, grown⟩ := literalText_eq listed (fun index isObject => known index (by
      rw [Instruction.function?, isObject]
      rfl)) shows
    refine ⟨after, ?_, grown⟩
    rw [Instruction.relisted, same]
    dsimp only
    rw [text]
    rfl

/-! ### Programs -/

theorem size_relisted (program : Program) :
    program.relisted.snapshot.size = program.snapshot.size := by
  unfold ProgramOf.size Program.relisted Program.snapshot
  rw [Array.size_map]

/-- The function that an operand of a program refers to. -/
theorem declaration?_item? (program : Program) (datum : Datum ℕ) :
    (program.snapshot.item? datum).bind Embedded.declaration? =
      datum.object.bind fun index => program.items.toList[index]? := by
  cases refers : datum.object with
  | none => simp [ProgramOf.item?, refers]
  | some index =>
    cases found : program.items[index]? <;>
    simp [ProgramOf.item?, Program.snapshot, refers, found, Embedded.declaration?]

theorem entry_relistedFrom (declarations : List Declaration) (index : ℕ) :
    (relistedFrom [] declarations)[index]?.map Declaration.entry =
      declarations[index]?.map Declaration.entry := by
  cases found : declarations[index]? with
  | none =>
    rw [List.getElem?_eq_none_iff, ← length_relistedFrom [], ← List.getElem?_eq_none_iff] at found
    rw [found]
  | some declaration =>
    obtain ⟨name, there, -⟩ := getElem?_relistedFrom [] found
    rw [there]
    rfl

theorem instructionTargets_eq (program : Program) (pc : ℕ) (instruction : Instruction ℕ) :
    instructionTargets program.snapshot pc instruction =
      (if instruction.opcode.isJump &&
          labelled program.snapshot.size (ProgramOf.jumpTarget pc instruction) then
        [ProgramOf.jumpTarget pc instruction] else []) ++
      if instruction.opcode = .push ∧ instruction.datum.kind = .object then
        (instruction.datum.object.bind fun index =>
          program.items.toList[index]?.map Declaration.entry).toList
      else [] := by
  unfold instructionTargets
  rw [declaration?_item?]
  refine congrArg₂ (· ++ ·) rfl ?_
  refine if_congr Iff.rfl ?_ rfl
  cases instruction.datum.object with
  | none => rfl
  | some index =>
    rw [Option.bind_some, Option.bind_some]
    cases program.items.toList[index]? <;> rfl

/-- An instruction that is `Instruction.relisted` uses the same addresses. -/
theorem instructionTargets_relisted (program : Program) (pc : ℕ) (instruction : Instruction ℕ) :
    instructionTargets program.relisted.snapshot pc instruction.relisted =
      instructionTargets program.snapshot pc instruction := by
  obtain ⟨kinds, same⟩ := instruction.datum.object_relisted
  have kindSame : instruction.relisted.datum.kind = .object ↔ instruction.datum.kind = .object :=
    kinds
  rw [instructionTargets_eq, instructionTargets_eq, size_relisted]
  refine congrArg₂ (· ++ ·) rfl ?_
  by_cases push : instruction.opcode = .push ∧ instruction.datum.kind = .object
  · rw [if_pos push, if_pos ⟨push.1, kindSame.mpr push.2⟩, Instruction.relisted, same push.2]
    exact congrArg (fun found => (instruction.datum.object.bind found).toList)
      (funext fun index => entry_relistedFrom program.items.toList index)
  · rw [if_neg push, if_neg fun other => push ⟨other.1, kindSame.mp other.2⟩]

theorem numberedFrom_map (pc : ℕ) (code : List (Instruction ℕ)) :
    numberedFrom pc (code.map Instruction.relisted) =
      (numberedFrom pc code).map fun (pc, instruction) => (pc, instruction.relisted) := by
  unfold numberedFrom
  rw [List.length_map, List.zip_map_right]
  rfl

theorem targets_relisted (program : Program) :
    targets program.relisted.snapshot = targets program.snapshot := by
  unfold targets
  rw [numbered_snapshot, numbered_snapshot, size_relisted, Program.relisted, Array.toList_map,
    numberedFrom_map, List.flatMap_map]
  refine congrArg₂ (· ++ ·) (congrArg₂ (· ++ ·) ?_ rfl) rfl
  exact List.flatMap_congr fun place _ =>
    instructionTargets_relisted program place.1 place.2

theorem text_instructionRow (program : Program) (met pc : ℕ) (instruction : Instruction ℕ) :
    (instructionRow program met pc instruction).text =
      9 :: (instruction.opcode.name ++ scrapsText (operandScraps program met pc instruction)) ++
        Text.ofString "\n" := by
  rw [Row.text_row, instructionRow, scrapsText_cons, scrapsText_cons]
  rfl

/-- The lines of the instructions of a `Listed` program are the text of their rows. -/
theorem instructionLines_eq (listed : program.Listed) (labels : List Int64)
    {before rest : List (Instruction ℕ)} (split : program.code.toList = before ++ rest)
    {printed : Printed} (shows : printed.Shows
      (program.relisted.items.toList.take (reach (functionsUsed before)))) :
    ∃ lines, instructionLines program.snapshot labels printed (numberedFrom before.length rest) =
        .ok lines ∧
      lines.flatten = (bodyRows program.relisted labels (reach (functionsUsed before))
        (numberedFrom before.length (rest.map Instruction.relisted))).flatMap Row.text := by
  induction rest generalizing before printed with
  | nil => exact ⟨[], rfl, rfl⟩
  | cons instruction rest ih =>
    have member : instruction ∈ program.code.toList := by simp [split]
    obtain ⟨after, text, grown⟩ := instructionText_eq before.length
      (listed.data instruction member) (fun index => listed.known split) shows
    have again : program.code.toList = (before ++ [instruction]) ++ rest := by simp [split]
    rw [← reach_functionsUsed_snoc] at grown
    obtain ⟨lines, printed, flat⟩ := ih again grown
    rw [List.length_append, List.length_singleton, reach_functionsUsed_snoc] at flat
    rw [List.length_append, List.length_singleton] at printed
    refine ⟨(labelLine labels (Int64.ofNat before.length) ++ 9 :: (instruction.opcode.name ++
      scrapsText (operandScraps program.relisted (reach (functionsUsed before)) before.length
        instruction.relisted)) ++ Text.ofString "\n") :: lines, ?_, ?_⟩
    · rw [numberedFrom_cons, instructionLines, text]
      show (instructionLines program.snapshot labels after _ >>= _) = _
      rw [printed]
      rfl
    · have used : metAfter (reach (functionsUsed before)) instruction.relisted =
          metAfter (reach (functionsUsed before)) instruction := by
        rw [metAfter, metAfter, instruction.function?_relisted]
      rw [List.map_cons, numberedFrom_cons, bodyRows, used, List.flatten_cons, flat,
        List.flatMap_append, List.flatMap_cons, text_labelRows, text_instructionRow]
      simp only [List.append_assoc]
      rfl

/-- The listing of a `Listed` program is the text of the `rows` of the relisted one. -/
theorem listing_eq (listed : program.Listed) :
    program.snapshot.listing = .ok ((rows program.relisted).flatMap Row.text) := by
  have code : program.relisted.code.toList = program.code.toList.map Instruction.relisted :=
    Array.toList_map
  obtain ⟨lines, printed, flat⟩ := instructionLines_eq listed (targets program.snapshot)
    (show program.code.toList = [] ++ program.code.toList from rfl) Printed.Shows.empty
  unfold ProgramOf.listing rows
  dsimp only
  rw [numbered_snapshot, numbered_snapshot, targets_relisted, code]
  rw [show [].length = 0 from rfl] at printed flat
  rw [printed]
  show Except.ok _ = _
  rw [flat, List.flatMap_append, List.flatMap_append, List.flatMap_append, text_directiveRows,
    text_directiveRows, text_labelRows,
    show program.relisted.size = program.snapshot.size from size_relisted program]
  rfl

end Assembly

end ScriptEngine
