/-
This file says what the labels of a source come to. Reading leaves a draft with the uses of labels
in jumps and functions, and linking may take these in any order: each of them changes an item of
its own, so that all orders give one program. In it a jump leads to the instruction behind its
label, and a function is entered there however often it is pushed.
-/

import Mathlib
import ScriptEngine.Proofs.Assembly.Recognition

namespace ScriptEngine.Assembly

/-! ### Uses in any order -/

namespace Draft

variable {draft : Draft} {Item : Type} {place : ℕ → ℕ → Item → Item}

/-- Resolves the labels in a list one after another, and changes by the address of each the item
that it is used in. -/
def linkEach (draft : Draft) (place : ℕ → ℕ → Item → Item) :
    List (ℕ × LabelUse) → Array Item → Except SourceError (Array Item)
  | [], items => return items
  | (index, use) :: rest, items => do
    let address ← draft.resolve use
    draft.linkEach place rest (items.modify index (place index address))

/-- A jump at `pc` that leads to an address. -/
def jumpTo (pc address : ℕ) (instruction : Instruction ℕ) : Instruction ℕ :=
  { instruction with jump := Int64.ofNat address - Int64.ofNat pc - 1 }

/-- A function that is entered at an address. -/
def enterAt (_ address : ℕ) (declaration : Declaration) : Declaration :=
  { declaration with entry := Int64.ofNat address }

/-- The uses of labels as entries of functions from a number on. -/
def entriesFrom (index : ℕ) (functions : List (Declaration × LabelUse)) : List (ℕ × LabelUse) :=
  (functions.zipIdx index).map fun (function, index) => (index, function.2)

/-- The uses of labels as entries, with the numbers of the functions. -/
def entries (draft : Draft) : List (ℕ × LabelUse) := entriesFrom 0 draft.functions.toList

/-- Replaces the labels by addresses; those of jumps and those of functions come in some order. -/
def addressesIn (draft : Draft) (jumps entries : List (ℕ × LabelUse)) :
    Except SourceError (Array (Instruction ℕ) × Array Declaration × ℕ × ℕ) := do
  let code ← draft.linkEach jumpTo jumps draft.code
  let items ← draft.linkEach enterAt entries (draft.functions.map Prod.fst)
  let entry ← draft.resolveOr draft.entry 0
  let stop ← draft.resolveOr draft.stop draft.code.size
  return (code, items, entry, stop)

/-- The program of a draft whose jumps and functions are linked in some order, by `addressesIn`. -/
def linkIn (draft : Draft) (jumps entries : List (ℕ × LabelUse)) :
    Except AssemblyError Program := do
  let (code, items, entry, stop) ←
    (draft.addressesIn jumps entries).mapError AssemblyError.source
  if stop < entry then throw (.entryAfterEnd entry stop)
  return { code, items, start := Int64.ofNat entry, stop := Int64.ofNat stop }

theorem linkEach_jumpTo (jumps : List (ℕ × LabelUse)) (code : Array (Instruction ℕ)) :
    draft.linkEach jumpTo jumps code = draft.linkJumps jumps code := by
  induction jumps generalizing code with
  | nil => rfl
  | cons jump rest ih =>
    obtain ⟨pc, use⟩ := jump
    rw [linkEach, linkJumps]
    exact bind_congr fun address => ih _

theorem modify_append_cons (before after : List Item) (item : Item) (change : Item → Item) :
    (before ++ item :: after).toArray.modify before.length change =
      (before ++ [change item] ++ after).toArray := by
  refine Array.ext' ?_
  rw [Array.toList_modify]
  induction before with
  | nil => rfl
  | cons first others ih => exact congrArg (first :: ·) ih

/-- Behind some functions that are linked the others are linked in order. -/
theorem linkEach_entriesFrom (draft : Draft) (done : List Declaration)
    (functions : List (Declaration × LabelUse)) :
    draft.linkEach enterAt (entriesFrom done.length functions)
        (done ++ functions.map Prod.fst).toArray =
      (functions.mapM fun (declaration, use) => do
        return { declaration with entry := Int64.ofNat (← draft.resolve use) }) >>=
        fun others => return (done ++ others).toArray := by
  induction functions generalizing done with
  | nil => simp [entriesFrom, linkEach]
  | cons function rest ih =>
    obtain ⟨declaration, use⟩ := function
    rw [List.mapM_cons, entriesFrom, List.zipIdx_cons, List.map_cons, List.map_cons, linkEach]
    simp only [bind_assoc, pure_bind, modify_append_cons]
    refine bind_congr fun address => ?_
    have later := ih (done ++ [enterAt done.length address declaration])
    rw [List.length_append, List.length_singleton] at later
    refine later.trans (bind_congr fun others => ?_)
    rw [List.append_assoc]
    rfl

theorem linkEach_entries :
    draft.linkEach enterAt draft.entries (draft.functions.map Prod.fst) = draft.linkFunctions := by
  have linked := linkEach_entriesFrom draft [] draft.functions.toList
  rw [List.nil_append, ← Array.toList_map, Array.toArray_toList] at linked
  refine linked.trans ?_
  rw [linkFunctions, Array.mapM_eq_mapM_toList]
  rfl

/-- Two changes to items at different places may change their places. -/
theorem modify_comm {first second : ℕ} (apart : first ≠ second) (items : Array Item)
    (change other : Item → Item) :
    (items.modify first change).modify second other =
      (items.modify second other).modify first change := by
  refine Array.ext_getElem? fun index => ?_
  simp only [Array.getElem?_modify]
  split <;> split
  · omega
  all_goals rfl

/-- If each label is used in an item of its own, the order in which `linkEach` resolves them does
not matter. -/
theorem linkEach_perm {first second : List (ℕ × LabelUse)} (same : first.Perm second)
    (apart : (first.map Prod.fst).Nodup) {items linked : Array Item} :
    draft.linkEach place first items = .ok linked ↔
      draft.linkEach place second items = .ok linked := by
  induction same generalizing items with
  | nil => rfl
  | cons use _ ih =>
    obtain ⟨index, use⟩ := use
    rw [linkEach, linkEach, bind_eq_ok_iff, bind_eq_ok_iff]
    exact exists_congr fun address => and_congr_right fun _ => ih (List.nodup_cons.mp apart).2
  | swap one other rest =>
    obtain ⟨index, use⟩ := one
    obtain ⟨position, later⟩ := other
    have different : position ≠ index := fun equal =>
      (List.nodup_cons.mp apart).1 (equal ▸ List.mem_cons_self)
    simp only [linkEach, bind_eq_ok_iff, modify_comm different]
    constructor
    · rintro ⟨former, first, latter, second, links⟩
      exact ⟨latter, second, former, first, links⟩
    · rintro ⟨former, first, latter, second, links⟩
      exact ⟨latter, second, former, first, links⟩
  | trans one other ih again =>
    exact (ih apart).trans (again ((one.map Prod.fst).nodup_iff.mp apart))

/-- The functions of a draft have different numbers. -/
theorem nodup_entries (draft : Draft) : (draft.entries.map Prod.fst).Nodup := by
  have numbers : draft.entries.map Prod.fst =
      (draft.functions.toList.zipIdx).map Prod.snd := by
    unfold entries entriesFrom
    rw [List.map_map]
    rfl
  rw [numbers, List.zipIdx_map_snd]
  exact List.nodup_range'

/-- In every order `linkIn` links a draft if `link` does so in the one in which it was read, and to
the same program. -/
theorem linkIn_eq_ok_iff (apart : (draft.jumps.map Prod.fst).Nodup)
    {jumps entries : List (ℕ × LabelUse)} (sameJumps : jumps.Perm draft.jumps)
    (sameEntries : entries.Perm draft.entries) (program : Program) :
    draft.linkIn jumps entries = .ok program ↔ draft.link = .ok program := by
  have linked (code : Array (Instruction ℕ)) :
      draft.linkEach jumpTo jumps draft.code = .ok code ↔
        draft.linkJumps draft.jumps draft.code = .ok code := by
    rw [← linkEach_jumpTo]
    exact linkEach_perm sameJumps ((sameJumps.map _).nodup_iff.mpr apart)
  have placed (items : Array Declaration) :
      draft.linkEach enterAt entries (draft.functions.map Prod.fst) = .ok items ↔
        draft.linkFunctions = .ok items := by
    rw [← linkEach_entries]
    exact linkEach_perm sameEntries ((sameEntries.map _).nodup_iff.mpr draft.nodup_entries)
  have addressed (found : Array (Instruction ℕ) × Array Declaration × ℕ × ℕ) :
      draft.addressesIn jumps entries = .ok found ↔ draft.addresses = .ok found := by
    unfold addressesIn addresses
    simp only [bind_eq_ok_iff, linked, placed]
  unfold linkIn link
  simp only [bind_eq_ok_iff, mapError_eq_ok_iff, addressed]

theorem jumpTarget_jumpTo (pc address : ℕ) (instruction : Instruction ℕ) :
    ProgramOf.jumpTarget pc (jumpTo pc address instruction) = Int64.ofNat address := by
  unfold ProgramOf.jumpTarget jumpTo
  dsimp only
  grind

/-- `linkJumps` leaves an instruction its opcode and its operand, and has a jump lead to its label.
-/
theorem exists_linked {jumps : List (ℕ × LabelUse)} {code linked : Array (Instruction ℕ)}
    (links : draft.linkJumps jumps code = .ok linked) (apart : (jumps.map Prod.fst).Nodup)
    {pc : ℕ} {instruction : Instruction ℕ} (found : code[pc]? = some instruction) :
    ∃ after, linked[pc]? = some after ∧ after.opcode = instruction.opcode ∧
      after.datum = instruction.datum ∧
      ∀ use, (pc, use) ∈ jumps → ∃ address, draft.resolve use = .ok address ∧
        ProgramOf.jumpTarget pc after = Int64.ofNat address := by
  obtain ⟨others, jumping⟩ := linkJumps_getElem? links apart
  have kept : ∃ after, linked[pc]? = some after ∧ after.opcode = instruction.opcode ∧
      after.datum = instruction.datum := by
    by_cases isJump : pc ∈ jumps.map Prod.fst
    · obtain ⟨jump, member, rfl⟩ := List.mem_map.mp isJump
      obtain ⟨address, -, isLinked⟩ := jumping jump member
      rw [found, Option.map_some] at isLinked
      exact ⟨_, isLinked, rfl, rfl⟩
    · exact ⟨instruction, (others pc isJump).trans found, rfl, rfl⟩
  obtain ⟨after, there, sameOpcode, sameDatum⟩ := kept
  refine ⟨after, there, sameOpcode, sameDatum, fun use member => ?_⟩
  obtain ⟨address, resolved, isLinked⟩ := jumping (pc, use) member
  rw [there, found, Option.map_some, Option.some_inj] at isLinked
  exact ⟨address, resolved, isLinked ▸ jumpTarget_jumpTo pc address instruction⟩

end Draft

/-! ### Functions by their numbers -/

/-- The label of the entry of a function that is pushed, by those of the functions so far. -/
def FunctionPhrase.label? (signatures : List (Text × Text)) : FunctionPhrase → Option Text
  | reference name => signatures.lookup name.val
  | declaration _ _ label _ => some label

/-- The functions that some lines declare, with the labels of their entries. A function without a
name has the empty one. -/
def signatures (lines : List LinePhrase) : List (Text × Text) :=
  lines.filterMap fun line => line.function?.bind FunctionPhrase.signature?

theorem functions_outlineOf (lines : List LinePhrase) :
    (outlineOf lines).functions = signatures lines := by
  induction lines using List.reverseRecOn with
  | nil => rfl
  | append_singleton lines line ih =>
    rw [outlineOf_append_singleton, Outline.line_eq, ih]
    exact (filterMap_append_singleton _ lines line).symm

theorem getElem?_findIdx?_lookup {signatures : List (Text × Text)} {name : Text} {index : ℕ}
    (found : (signatures.map Prod.fst).findIdx? (· = name) = some index) :
    ∃ label, signatures.lookup name = some label ∧ signatures[index]? = some (name, label) := by
  induction signatures generalizing index with
  | nil => cases found
  | cons signature others ih =>
    obtain ⟨other, label⟩ := signature
    rw [List.map_cons, List.findIdx?_cons] at found
    by_cases same : other = name
    · obtain rfl : 0 = index := by simpa [same] using found
      exact ⟨label, by rw [same, List.lookup_cons_self], by rw [same]; rfl⟩
    · rw [if_neg (by simpa using same)] at found
      obtain ⟨before, isBefore, rfl⟩ := Option.map_eq_some_iff.mp found
      obtain ⟨label, isLabel, there⟩ := ih isBefore
      refine ⟨label, ?_, there⟩
      rw [List.lookup_cons, beq_false_of_ne (Ne.symm same)]
      exact isLabel

/-- A function that is pushed and `Follows` its declaration is among the `signatures` by then, with
its name and its label. -/
theorem exists_signature {before after : List LinePhrase} {line : LinePhrase}
    {function : FunctionPhrase} (isFunction : line.function? = some function)
    (follows : function.Follows (declaredNames before)) :
    ∃ index name label, function.number? ((signatures before).map Prod.fst) = some index ∧
      function.label? (signatures before) = some label ∧
      (signatures (before ++ line :: after))[index]? = some (name, label) := by
  have split : signatures (before ++ line :: after) =
      signatures before ++ function.signature?.toList ++ signatures after := by
    unfold signatures
    rw [List.append_cons, List.filterMap_append, filterMap_append_singleton, isFunction]
    rfl
  rw [split]
  cases function with
  | reference name =>
    have known : name.val ∈ (signatures before).map Prod.fst := by
      rw [← functions_outlineOf]
      exact ((describes_outlineOf before).names name).mpr follows
    obtain ⟨index, found⟩ : ∃ index,
        ((signatures before).map Prod.fst).findIdx? (· = name.val) = some index := by
      rw [← Option.isSome_iff_exists, List.findIdx?_isSome, List.any_eq_true]
      exact ⟨name.val, known, decide_eq_true rfl⟩
    obtain ⟨label, isLabel, there⟩ := getElem?_findIdx?_lookup found
    refine ⟨index, name.val, label, found, isLabel, ?_⟩
    rw [List.append_assoc, List.getElem?_append_left (List.getElem?_eq_some_iff.mp there).1, there]
  | declaration name params label constructs =>
    refine ⟨(signatures before).length, (name.map Subtype.val).getD [], label,
      congrArg some (List.length_map _), rfl, ?_⟩
    rw [List.append_assoc, List.getElem?_append_right (Nat.le_refl _), Nat.sub_self]
    rfl

/-- What the labels of some lines come to in a program: its functions have the `signatures` of the
lines, its jumps lead to the `labelAddress` of their targets, and it starts and stops at its bounds.
-/
structure Resolved (lines : List LinePhrase) (program : Program) : Prop where
  size : program.code.size = instructionCount lines
  instructions : ∀ before line after, lines = before ++ line :: after → ∀ opcode ∈ line.opcode?,
    ∃ instruction, program.code[instructionCount before]? = some instruction ∧
      instruction.opcode = opcode ∧
      (∀ label ∈ line.target?, ProgramOf.jumpTarget (instructionCount before) instruction =
        Int64.ofNat (labelAddress lines label)) ∧
      ∀ function ∈ line.function?, ∃ index declaration label,
        function.number? ((signatures before).map Prod.fst) = some index ∧
        function.label? (signatures before) = some label ∧
        instruction.datum = .ofObject (some index) ∧
        program.items[index]? = some declaration ∧
        declaration.entry = Int64.ofNat (labelAddress lines label)
  functions : program.items.toList.map (fun declaration => (declaration.name, declaration.entry)) =
    (signatures lines).map fun signature =>
      (signature.1, Int64.ofNat (labelAddress lines signature.2))
  start : program.start = Int64.ofNat (startAddress lines)
  stop : program.stop = Int64.ofNat (stopAddress lines)

namespace Draft.Follows

variable {draft : Draft} {lines : List LinePhrase} {program : Program}

theorem describes (follows : draft.Follows lines) : draft.outline.Describes lines :=
  follows.outline ▸ describes_outlineOf lines

/-- Each function of the `signatures` is entered at its label. -/
theorem items_eq (follows : draft.Follows lines) {items : Array Declaration}
    (links : draft.linkFunctions = .ok items) :
    items.toList.map (fun declaration => (declaration.name, declaration.entry)) =
      (signatures lines).map fun signature =>
        (signature.1, Int64.ofNat (labelAddress lines signature.2)) := by
  rw [← functions_outlineOf, ← follows.outline, Draft.outline, List.map_map]
  have linked := linkFunctions_eq_ok_iff.mp links
  generalize draft.functions.toList = functions, items.toList = list at linked
  induction linked with
  | nil => rfl
  | cons linked _ ih =>
    obtain ⟨address, resolved, rfl⟩ := linked
    rw [List.map_cons, List.map_cons, ih]
    simp [((resolve_eq_ok_iff follows.describes).mp resolved).2]

/-- The instruction of a line stands at its address with its opcode and its function, and jumps to
its target. -/
theorem exists_instruction (follows : draft.Follows lines)
    (apart : (draft.jumps.map Prod.fst).Nodup) {code : Array (Instruction ℕ)}
    (links : draft.linkJumps draft.jumps draft.code = .ok code)
    {before after : List LinePhrase} {line : LinePhrase} (split : lines = before ++ line :: after)
    {opcode : Opcode} (isOpcode : line.opcode? = some opcode) :
    ∃ instruction, code[instructionCount before]? = some instruction ∧
      instruction.opcode = opcode ∧
      instruction.function? =
        line.function?.bind (FunctionPhrase.number? ((signatures before).map Prod.fst)) ∧
      ∀ label ∈ line.target?, ProgramOf.jumpTarget (instructionCount before) instruction =
        Int64.ofNat (labelAddress lines label) := by
  have pushed := follows.pushes before line after split opcode isOpcode
  rw [Draft.pushes, List.getElem?_map, Array.getElem?_toList, Outline.names,
    functions_outlineOf] at pushed
  obtain ⟨instruction, found, isPush⟩ := Option.map_eq_some_iff.mp pushed
  obtain ⟨rfl, isFunction⟩ := Prod.mk.inj isPush
  obtain ⟨linked, there, sameOpcode, sameDatum, jumps⟩ := exists_linked links apart found
  have sameFunction : linked.function? = instruction.function? := by
    rw [Instruction.function?, sameDatum]
    rfl
  refine ⟨linked, there, sameOpcode, sameFunction.trans isFunction, fun label isTarget => ?_⟩
  obtain ⟨⟨pc, use⟩, member, isJump⟩ :=
    List.mem_map.mp (follows.targets before line after split label isTarget)
  obtain ⟨rfl, rfl⟩ := Prod.mk.inj isJump
  obtain ⟨address, resolved, leads⟩ := jumps use member
  rw [leads, ((resolve_eq_ok_iff follows.describes).mp resolved).2]

theorem resolved (follows : draft.Follows lines) (declares : Declares lines) (sound : draft.Sound)
    (apart : (draft.jumps.map Prod.fst).Nodup) (links : draft.link = .ok program) :
    Resolved lines program := by
  obtain ⟨entry, stop, jumps, functions, first, last, -, isStart, isStop⟩ :=
    link_eq_ok_iff.mp links
  obtain ⟨assembled, size⟩ := assembled_of_link sound links
  have items := follows.items_eq functions
  have isEntry := ((resolveOr_eq_ok_iff follows.describes).mp first).2
  have isLast := ((resolveOr_eq_ok_iff follows.describes).mp last).2
  refine ⟨?_, ?_, items, ?_, ?_⟩
  · rw [size, ← follows.describes.size]
    rfl
  · intro before line after split opcode isOpcode
    obtain ⟨instruction, found, same, pushed, leads⟩ :=
      follows.exists_instruction apart jumps split isOpcode
    refine ⟨instruction, found, same, leads, fun function isFunction => ?_⟩
    obtain ⟨index, name, label, isNumber, isLabel, isSignature⟩ :=
      exists_signature isFunction (declares.functions before line after split function isFunction)
    rw [← split] at isSignature
    have listed := (assembled.code instruction
      (Array.mem_toList_iff.mpr (Array.mem_of_getElem? found))).datum.listed
    have isPushed : instruction.function? = some index := by
      rw [pushed, show line.function? = some function from isFunction]
      exact isNumber
    have entered := congrArg (fun list => list[index]?) items
    simp only [List.getElem?_map, isSignature, Option.map_some] at entered
    obtain ⟨declaration, isItem, isEntered⟩ := Option.map_eq_some_iff.mp entered
    exact ⟨index, declaration, label, isNumber, isLabel, (literal_of_function? listed isPushed).2,
      (Array.getElem?_toList ..).symm.trans isItem, (Prod.mk.inj isEntered).2⟩
  · rw [isStart, ← isEntry, startAddress, ← follows.describes.entry]
    rfl
  · rw [isStop, ← isLast, stopAddress, ← follows.describes.stop, ← follows.describes.size]
    rfl

end Draft.Follows

/-- The program of a source is `Resolved` for the lines of the source. -/
theorem resolved_of_assemble {source : Text} {program : Program} {lines : List LinePhrase}
    (assembles : assemble source = .ok program)
    (isWords : (tokens source).map Token.word = sourceWords lines) (coherent : Coherent lines) :
    Resolved lines program := by
  obtain ⟨draft, read, sound, links⟩ := exists_draft_of_assemble assembles
  have apart := (faithful_of_readLines Draft.faithful_nil read).apart
  have resolved {phrase : LinePhrase} {others : List LinePhrase}
      (isWords : (tokens source).map Token.word = sourceWords (phrase :: others))
      (coherent : Coherent (phrase :: others)) : Resolved (phrase :: others) program := by
    have declares : Declares ([] ++ phrase :: others) := ⟨coherent.labels, coherent.functions⟩
    obtain ⟨after, again, follows⟩ :=
      exists_readLines (spells_of_sourceWords isWords) Draft.follows_empty declares
    cases read.symm.trans again
    exact follows.resolved declares sound apart links
  cases lines with
  | nil =>
    -- no lines have the words of an empty one
    obtain ⟨size, -, functions, start, stop⟩ := @resolved {} [] isWords coherent_empty
    exact ⟨size, fun before line after split => by simp at split, functions, start, stop⟩
  | cons phrase others => exact resolved isWords coherent

/-- A source that assembles is spelt by lines that are `Coherent`. -/
theorem exists_sourceWords_of_assemble {source : Text} {program : Program}
    (assembles : assemble source = .ok program) :
    ∃ lines, (tokens source).map Token.word = sourceWords lines ∧ Coherent lines := by
  obtain ⟨lines, spells, coherent⟩ := exists_spells_of_assemble assembles
  obtain ⟨body, last, isTokens, isLast, ends⟩ := exists_tokens_eq source
  rw [isTokens] at spells ⊢
  exact ⟨lines, sourceWords_of_spells isLast ends spells, coherent⟩

/-- In whichever order `Draft.linkIn` resolves the labels that a source uses, the source is accepted
or not, and its program is the same one. The program is `Resolved` for the lines that the source
spells: in it all labels stand for the instructions behind them. -/
theorem labels_resolved (source : Text) :
    (∀ draft, readLines {} (linesOf source) = .ok draft →
      ∀ jumps entries, jumps.Perm draft.jumps → entries.Perm draft.entries →
        ∀ program, draft.linkIn jumps entries = .ok program ↔ assemble source = .ok program) ∧
    ∀ program, assemble source = .ok program →
      (∃ lines, (tokens source).map Token.word = sourceWords lines ∧ Coherent lines) ∧
      ∀ lines, (tokens source).map Token.word = sourceWords lines → Coherent lines →
        Resolved lines program := by
  refine ⟨fun draft read jumps entries sameJumps sameEntries program => ?_,
    fun program assembles => ⟨exists_sourceWords_of_assemble assembles,
      fun lines isWords coherent => resolved_of_assemble assembles isWords coherent⟩⟩
  have apart := (faithful_of_readLines Draft.faithful_nil read).apart
  have unique {other : Draft} : readLines {} (linesOf source) = .ok other ↔ draft = other := by
    rw [read, Except.ok.injEq]
  rw [Draft.linkIn_eq_ok_iff apart sameJumps sameEntries, assemble_eq_ok_iff, ← linesOf]
  simp only [unique, exists_eq_left']

/-- A source whose labels stand in front of their uses and behind them, and one of them behind all
instructions; a function is pushed twice, and each directive is given twice. -/
def resolvingSource : Text :=
  [".entry body",
    ".end over",
    "body: jmpz @over",
    "start:",
    "again: push func f(x) @body",
    "push func f",
    "jmp @again",
    "jmpnz @start",
    "over:",
    ".entry start",
    ".end behind",
    "behind:"].flatMap fun line => Text.ofString line ++ Text.ofString "\n"

/-- What the source denotes. -/
def resolvingProgram : Program where
  code := #[
    { opcode := .jmpz, jump := 4 },
    { opcode := .push, datum := .ofObject (some 0) },
    { opcode := .push, datum := .ofObject (some 0) },
    { opcode := .jmp, jump := -3 },
    { opcode := .jmpnz, jump := -4 }]
  items := #[{ name := "f", params := ["x"], entry := 0 }]
  start := 1
  stop := 5

theorem labels_resolved_sample :
    assemble resolvingSource = .ok resolvingProgram ∧
      (∀ draft, readLines {} (linesOf resolvingSource) = .ok draft →
        draft.linkIn draft.jumps.reverse draft.entries.reverse = .ok resolvingProgram) ∧
      ∃ lines, (tokens resolvingSource).map Token.word = sourceWords lines ∧
        Resolved lines resolvingProgram := by
  have assembles : assemble resolvingSource = .ok resolvingProgram := by decide +kernel
  obtain ⟨orders, programs⟩ := labels_resolved resolvingSource
  obtain ⟨⟨lines, isWords, coherent⟩, resolved⟩ := programs _ assembles
  exact ⟨assembles,
    fun draft read => (orders draft read _ _ (List.reverse_perm _) (List.reverse_perm _) _).mpr
      assembles,
    lines, isWords, resolved lines isWords coherent⟩

end ScriptEngine.Assembly
