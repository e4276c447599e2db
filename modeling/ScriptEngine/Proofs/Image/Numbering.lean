/-
This file is about the numbers that an image gives to functions. Functions are numbered in the
order of first use, so the functions met so far only ever grow at the end, a function keeps the
number it got, and renumbering a whole program comes down to one list: that of its functions in the
order of first use. Numbering a program that was already numbered so changes nothing.
-/

import Mathlib
import ScriptEngine.Image

namespace ScriptEngine

/-! ### Places of first use -/

theorem placeOf_snd (met : List ℕ) (index : ℕ) :
    (placeOf met index).2 = if index ∈ met then met else met ++ [index] := by
  unfold placeOf
  cases found : met.findIdx? (· = index) with
  | none =>
    have absent : index ∉ met := by
      intro member
      simpa using List.findIdx?_eq_none_iff.mp found index member
    rw [if_neg absent]
  | some place =>
    obtain ⟨below, first⟩ := List.findIdx?_eq_some_iff_findIdx_eq.mp found
    have same : met.idxOf index = place := first
    have member : index ∈ met := List.idxOf_lt_length_iff.mp (by rwa [same])
    rw [if_pos member]

theorem placeOf_fst (met : List ℕ) (index : ℕ) :
    (placeOf met index).1 = (placeOf met index).2.idxOf index := by
  unfold placeOf
  cases found : met.findIdx? (· = index) with
  | none =>
    have absent : index ∉ met := by
      intro member
      simpa using List.findIdx?_eq_none_iff.mp found index member
    simp [List.idxOf_append_of_notMem absent]
  | some place => exact (List.findIdx?_eq_some_iff_findIdx_eq.mp found).2.symm

theorem mem_placeOf {met : List ℕ} {index other : ℕ} :
    other ∈ (placeOf met index).2 ↔ other ∈ met ∨ other = index := by
  rw [placeOf_snd]
  split
  · case isTrue member =>
    refine ⟨.inl, ?_⟩
    rintro (before | rfl)
    · exact before
    · exact member
  · simp

/-- The functions met so far and those used from here on, in the order of first use. -/
def firstUses (met uses : List ℕ) : List ℕ :=
  uses.foldl (fun met index => (placeOf met index).2) met

theorem firstUses_cons (met : List ℕ) (index : ℕ) (uses : List ℕ) :
    firstUses met (index :: uses) = firstUses (placeOf met index).2 uses := rfl

theorem mem_firstUses {met uses : List ℕ} {other : ℕ} :
    other ∈ firstUses met uses ↔ other ∈ met ∨ other ∈ uses := by
  induction uses generalizing met with
  | nil => simp [firstUses]
  | cons index uses ih => rw [firstUses_cons, ih, mem_placeOf, List.mem_cons, or_assoc]

theorem nodup_firstUses {met : List ℕ} (distinct : met.Nodup) (uses : List ℕ) :
    (firstUses met uses).Nodup := by
  induction uses generalizing met with
  | nil => exact distinct
  | cons index uses ih =>
    rw [firstUses_cons]
    refine ih ?_
    rw [placeOf_snd]
    split
    · exact distinct
    · case isFalse absent => exact distinct.append (List.nodup_singleton _) (by simpa using absent)

theorem length_firstUses_le (met uses : List ℕ) :
    (firstUses met uses).length ≤ met.length + uses.length := by
  induction uses generalizing met with
  | nil => exact Nat.le_refl _
  | cons index uses ih =>
    have step : (placeOf met index).2.length ≤ met.length + 1 := by
      rw [placeOf_snd]
      split <;> simp
    have rest := ih (placeOf met index).2
    rw [firstUses_cons, List.length_cons]
    omega

/-- What has been met keeps its place in `firstUses`. -/
theorem idxOf_firstUses {met : List ℕ} {index : ℕ} (member : index ∈ met) (uses : List ℕ) :
    (firstUses met uses).idxOf index = met.idxOf index := by
  induction uses generalizing met with
  | nil => rfl
  | cons other uses ih =>
    rw [firstUses_cons, ih (mem_placeOf.mpr (.inl member)), placeOf_snd]
    split
    · rfl
    · exact List.idxOf_append_of_mem member

/-- Renaming the functions apart from each other renames their `firstUses`. -/
theorem firstUses_map {rename : ℕ → ℕ} {met uses : List ℕ}
    (apart : ∀ first ∈ firstUses met uses, ∀ second ∈ firstUses met uses,
      rename first = rename second → first = second) :
    firstUses (met.map rename) (uses.map rename) = (firstUses met uses).map rename := by
  induction uses generalizing met with
  | nil => rfl
  | cons index uses ih =>
    have indexMember : index ∈ firstUses met (index :: uses) :=
      mem_firstUses.mpr (.inr List.mem_cons_self)
    have renamedMember : rename index ∈ met.map rename ↔ index ∈ met := by
      refine ⟨fun member => ?_, List.mem_map_of_mem⟩
      obtain ⟨other, among, same⟩ := List.mem_map.mp member
      exact apart other (mem_firstUses.mpr (.inl among)) index indexMember same ▸ among
    have step : (placeOf (met.map rename) (rename index)).2 =
        (placeOf met index).2.map rename := by
      rw [placeOf_snd, placeOf_snd]
      by_cases member : index ∈ met
      · rw [if_pos member, if_pos (renamedMember.mpr member)]
      · rw [if_neg member, if_neg (mt renamedMember.mp member), List.map_append]
        rfl
    rw [List.map_cons, firstUses_cons, firstUses_cons, step]
    exact ih apart

theorem map_idxOf_self {met : List ℕ} (distinct : met.Nodup) :
    met.map (fun index => met.idxOf index) = List.range met.length := by
  refine List.ext_getElem (by simp) fun place below _ => ?_
  rw [List.getElem_map, List.getElem_range, distinct.idxOf_getElem]

/-! ### Renumbered instructions -/

namespace Instruction

/-- The function that an operand refers to, if it is meant to be an object. -/
def function? (instruction : Instruction ℕ) : Option ℕ :=
  if instruction.datum.kind = .object then instruction.datum.object else none

/-- The instruction with its function by its place in a list. -/
def numbered (met : List ℕ) (instruction : Instruction ℕ) : Instruction ℕ :=
  { instruction with
    datum := { instruction.datum with object := instruction.function?.map (met.idxOf ·) } }

theorem function?_of_ne {instruction : Instruction ℕ} (other : instruction.datum.kind ≠ .object) :
    instruction.function? = none := if_neg other

theorem kind_of_function? {instruction : Instruction ℕ} {index : ℕ}
    (function : instruction.function? = some index) : instruction.datum.kind = .object := by
  by_contra other
  rw [function?_of_ne other] at function
  cases function

theorem object_numbered_of_ne {met : List ℕ} {instruction : Instruction ℕ}
    (other : instruction.datum.kind ≠ .object) :
    (instruction.numbered met).datum.object = none := by
  unfold numbered
  dsimp only
  rw [function?_of_ne other, Option.map_none]

theorem function?_numbered (met : List ℕ) (instruction : Instruction ℕ) :
    (instruction.numbered met).function? = instruction.function?.map (met.idxOf ·) := by
  unfold function? numbered
  by_cases object : instruction.datum.kind = .object
  · simp [function?, object]
  · simp [object]

end Instruction

/-- The functions that instructions refer to, one after another. -/
def functionsUsed (code : List (Instruction ℕ)) : List ℕ := code.filterMap Instruction.function?

theorem functionsUsed_numbered (met : List ℕ) (code : List (Instruction ℕ)) :
    functionsUsed (code.map (Instruction.numbered met)) =
      (functionsUsed code).map (met.idxOf ·) := by
  unfold functionsUsed
  rw [List.filterMap_map, List.map_filterMap]
  exact List.filterMap_congr fun instruction _ => instruction.function?_numbered met

variable {snapshot : Snapshot}

/-- Every operand that is meant to be an object is a script function. -/
def ProgramOf.Scripted (snapshot : Snapshot) : Prop :=
  ∀ instruction ∈ snapshot.code, instruction.datum.kind = .object →
    ∃ declaration, snapshot.item? instruction.datum = some (.script declaration)

/-- An operand that is found among the items refers to one by its place. -/
theorem exists_of_item? {instruction : Instruction ℕ} {item : Embedded}
    (object : instruction.datum.kind = .object)
    (found : snapshot.item? instruction.datum = some item) :
    ∃ index, instruction.datum.object = some index ∧ instruction.function? = some index ∧
      snapshot.items[index]? = some item := by
  obtain ⟨index, refers, there⟩ := Option.bind_eq_some_iff.mp found
  exact ⟨index, refers, by rw [Instruction.function?, if_pos object, refers], there⟩

theorem renumberAll_eq {code : List (Instruction ℕ)} (pc : ℕ) (met : List ℕ)
    (scripted : ∀ instruction ∈ code, instruction.datum.kind = .object →
      ∃ declaration, snapshot.item? instruction.datum = some (.script declaration)) :
    renumberAll snapshot pc met code =
      .ok (code.map (Instruction.numbered (firstUses met (functionsUsed code))),
        firstUses met (functionsUsed code)) := by
  induction code generalizing pc met with
  | nil => rfl
  | cons instruction rest ih =>
    have others := fun other member => scripted other (List.mem_cons_of_mem _ member)
    rw [renumberAll, List.map_cons]
    by_cases object : instruction.datum.kind = .object
    · obtain ⟨declaration, found⟩ := scripted instruction List.mem_cons_self object
      obtain ⟨index, refers, function, -⟩ := exists_of_item? object found
      have first : instruction.renumber snapshot pc met =
          .ok ({ instruction with
            datum := { instruction.datum with object := some (placeOf met index).1 } },
            (placeOf met index).2) := by
        unfold Instruction.renumber
        dsimp only
        rw [if_pos object, refers, found]
        rfl
      have uses : functionsUsed (instruction :: rest) = index :: functionsUsed rest :=
        List.filterMap_cons_some function
      have kept : (firstUses (placeOf met index).2 (functionsUsed rest)).idxOf index =
          (placeOf met index).1 := by
        rw [idxOf_firstUses (mem_placeOf.mpr (.inr rfl)), placeOf_fst]
      rw [first, uses, firstUses_cons]
      show (renumberAll snapshot (pc + 1) (placeOf met index).2 rest).bind _ = _
      rw [ih (pc + 1) (placeOf met index).2 others, Instruction.numbered, function,
        Option.map_some, kept]
      rfl
    · have first : instruction.renumber snapshot pc met =
          .ok ({ instruction with datum := { instruction.datum with object := none } }, met) := by
        unfold Instruction.renumber
        dsimp only
        rw [if_neg object]
        rfl
      have function := Instruction.function?_of_ne object
      have uses : functionsUsed (instruction :: rest) = functionsUsed rest :=
        List.filterMap_cons_none function
      rw [first, uses]
      show (renumberAll snapshot (pc + 1) met rest).bind _ = _
      rw [ih (pc + 1) met others, Instruction.numbered, function, Option.map_none]
      rfl

/-! ### Renumbered programs -/

namespace ProgramOf

/-- The functions of a program in the order of first use. -/
def met (snapshot : Snapshot) : List ℕ := firstUses [] (functionsUsed snapshot.code.toList)

/-- The declaration at a place. -/
def declared (snapshot : Snapshot) (index : ℕ) : Declaration :=
  ((snapshot.items[index]?).bind Embedded.declaration?).getD {}

/-- A program whose functions are numbered in the order of first use, `met`; each instruction is
`numbered` so. -/
def renumbered (snapshot : Snapshot) : Program where
  code := snapshot.code.map (Instruction.numbered snapshot.met)
  items := (snapshot.met.map snapshot.declared).toArray
  start := snapshot.start
  stop := snapshot.stop

theorem nodup_met (snapshot : Snapshot) : snapshot.met.Nodup :=
  nodup_firstUses List.nodup_nil _

/-- What is met is the function of an instruction. -/
theorem exists_of_mem_met {index : ℕ} (member : index ∈ snapshot.met) :
    ∃ instruction ∈ snapshot.code, instruction.function? = some index := by
  rcases mem_firstUses.mp member with nothing | used
  · cases nothing
  · obtain ⟨instruction, among, function⟩ := List.mem_filterMap.mp used
    exact ⟨instruction, Array.mem_toList_iff.mp among, function⟩

theorem mem_met {instruction : Instruction ℕ} {index : ℕ} (member : instruction ∈ snapshot.code)
    (function : instruction.function? = some index) : index ∈ snapshot.met :=
  mem_firstUses.mpr (.inr (List.mem_filterMap.mpr
    ⟨instruction, Array.mem_toList_iff.mpr member, function⟩))

theorem length_met_le (snapshot : Snapshot) : snapshot.met.length ≤ snapshot.code.size := by
  have bound := length_firstUses_le [] (functionsUsed snapshot.code.toList)
  have used := List.length_filterMap_le Instruction.function? snapshot.code.toList
  rw [Array.length_toList] at used
  exact bound.trans (by rw [List.length_nil, Nat.zero_add]; exact used)

/-- Of a program that is `Scripted`, so that its objects are script functions, all that is `met` is
one. -/
theorem Scripted.item_of_mem_met (scripted : snapshot.Scripted) {index : ℕ}
    (member : index ∈ snapshot.met) :
    snapshot.items[index]? = some (.script (snapshot.declared index)) := by
  obtain ⟨instruction, among, function⟩ := exists_of_mem_met member
  have object := Instruction.kind_of_function? function
  obtain ⟨declaration, found⟩ := scripted instruction among object
  obtain ⟨place, -, same, there⟩ := exists_of_item? object found
  rw [same] at function
  cases function
  unfold declared
  rw [there]
  rfl

/-- A program that is `Scripted` can be written down, and what is written down is the program
`renumbered`. -/
theorem Scripted.writable_eq (scripted : snapshot.Scripted) :
    snapshot.writable = .ok snapshot.renumbered := by
  have listed : ∀ instruction ∈ snapshot.code.toList, _ := fun instruction member =>
    scripted instruction (Array.mem_toList_iff.mp member)
  have renumbered := renumberAll_eq 0 [] listed
  have declarations : snapshot.met.filterMap (fun index =>
      (snapshot.items[index]?).bind Embedded.declaration?) =
      snapshot.met.map snapshot.declared := by
    rw [← List.filterMap_eq_map']
    refine List.filterMap_congr fun index member => ?_
    rw [scripted.item_of_mem_met member]
    rfl
  unfold writable
  rw [renumbered]
  show Except.ok ({
      code := (snapshot.code.toList.map (Instruction.numbered snapshot.met)).toArray
      items := (snapshot.met.filterMap fun index =>
        (snapshot.items[index]?).bind Embedded.declaration?).toArray
      start := snapshot.start
      stop := snapshot.stop } : Program) = _
  rw [declarations, ← List.map_toArray, Array.toArray_toList]
  rfl

/-- A function of a renumbered program is the one that the program has there. -/
theorem item?_numbered {instruction : Instruction ℕ} {declaration : Declaration}
    (member : instruction ∈ snapshot.code) (object : instruction.datum.kind = .object)
    (found : snapshot.item? instruction.datum = some (.script declaration)) :
    snapshot.renumbered.item? (instruction.numbered snapshot.met).datum = some declaration := by
  obtain ⟨index, refers, function, there⟩ := exists_of_item? object found
  have below := List.idxOf_lt_length_iff.mpr (mem_met member function)
  have met : snapshot.met[snapshot.met.idxOf index]? = some index := by
    rw [List.getElem?_eq_getElem below, List.getElem_idxOf below]
  have declared : snapshot.declared index = declaration := by
    rw [ProgramOf.declared, there]
    rfl
  unfold item? Instruction.numbered
  dsimp only
  rw [function, Option.map_some, Option.bind_some, renumbered, List.getElem?_toArray,
    List.getElem?_map, met, Option.map_some, declared]

theorem item?_snapshot (program : Program) (datum : Datum ℕ) :
    program.snapshot.item? datum = (program.item? datum).map .script := by
  unfold item? Program.snapshot
  cases datum.object with
  | none => rfl
  | some index => exact Array.getElem?_map ..

/-! ### Renumbering twice -/

/-- The functions of a `renumbered` program are `met` in their order. -/
theorem met_renumbered (snapshot : Snapshot) :
    snapshot.renumbered.snapshot.met = List.range snapshot.met.length := by
  have uses : functionsUsed snapshot.renumbered.snapshot.code.toList =
      (functionsUsed snapshot.code.toList).map (snapshot.met.idxOf ·) := by
    show functionsUsed (snapshot.code.map (Instruction.numbered snapshot.met)).toList = _
    rw [Array.toList_map, functionsUsed_numbered]
  unfold met
  rw [uses]
  have renamed : firstUses ([].map (snapshot.met.idxOf ·))
        ((functionsUsed snapshot.code.toList).map (snapshot.met.idxOf ·)) =
      snapshot.met.map (snapshot.met.idxOf ·) :=
    firstUses_map fun first firstMember second _ same => (List.idxOf_inj firstMember).mp same
  exact renamed.trans (map_idxOf_self snapshot.nodup_met)

theorem Scripted.scripted_renumbered (scripted : snapshot.Scripted) :
    snapshot.renumbered.snapshot.Scripted := by
  intro instruction member object
  obtain ⟨original, among, rfl⟩ := Array.mem_map.mp member
  obtain ⟨declaration, found⟩ := scripted original among object
  exact ⟨declaration, by rw [item?_snapshot, item?_numbered among object found]; rfl⟩

theorem renumbered_renumbered (snapshot : Snapshot) :
    snapshot.renumbered.snapshot.renumbered = snapshot.renumbered := by
  have code : (snapshot.code.map (Instruction.numbered snapshot.met)).map
        (Instruction.numbered (List.range snapshot.met.length)) =
      snapshot.code.map (Instruction.numbered snapshot.met) := by
    rw [Array.map_map]
    refine Array.map_congr_left fun instruction member => ?_
    have same : (instruction.function?.map (snapshot.met.idxOf ·)).map
        ((List.range snapshot.met.length).idxOf ·) =
        instruction.function?.map (snapshot.met.idxOf ·) := by
      cases function : instruction.function? with
      | none => rfl
      | some index =>
        have below := List.idxOf_lt_length_iff.mpr (mem_met member function)
        have kept := List.nodup_range.idxOf_getElem (snapshot.met.idxOf index)
          (by rwa [List.length_range])
        rw [List.getElem_range] at kept
        rw [Option.map_some, Option.map_some, kept]
    show ({ instruction with datum := { instruction.datum with
      object := (instruction.numbered snapshot.met).function?.map
        ((List.range snapshot.met.length).idxOf ·) } } : Instruction ℕ) = _
    rw [Instruction.function?_numbered, same]
    rfl
  have items : (List.range snapshot.met.length).map snapshot.renumbered.snapshot.declared =
      snapshot.met.map snapshot.declared := by
    refine List.ext_getElem (by simp) fun place below _ => ?_
    rw [List.length_map, List.length_range] at below
    rw [List.getElem_map, List.getElem_range, List.getElem_map]
    unfold declared
    simp [Program.snapshot, renumbered, below, Embedded.declaration?, declared]
  have twice : snapshot.renumbered.snapshot.renumbered =
      { code := (snapshot.code.map (Instruction.numbered snapshot.met)).map
          (Instruction.numbered snapshot.renumbered.snapshot.met)
        items := (snapshot.renumbered.snapshot.met.map
          snapshot.renumbered.snapshot.declared).toArray
        start := snapshot.start
        stop := snapshot.stop } := rfl
  rw [twice, met_renumbered, code, items]
  rfl

end ProgramOf

end ScriptEngine
