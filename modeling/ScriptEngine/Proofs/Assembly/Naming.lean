/-
This file is about the names under which a listing shows functions. A function gets its name where
it is first pushed: the first one of the candidates made from its own name that no function has
got before. What has been printed so far is all that this depends on, and an instruction adds one
name to it at most, so that names once given stay, are identifiers, and are those of one function
each. From this follows what the line of every instruction that pushes a function looks like. Only
a push of an operand of no known kind has no line, and a program without one has a listing.
-/

import Mathlib
import ScriptEngine.Proofs.Assembly.Arranging

namespace ScriptEngine

open Assembly (isIdentifier baseName declarationText labelLine)

/-! ### Pushes of functions -/

/-- The operand of a push is of a known kind. -/
def Instruction.OperandKnown (instruction : Instruction ℕ) : Prop :=
  instruction.opcode = .push → ∀ beyond, instruction.datum.kind ≠ .unknown beyond

namespace ProgramOf

/-- The function that an instruction has a listing print, with its number. -/
def pushed? (program : Snapshot) (instruction : Instruction ℕ) : Option (ℕ × Declaration) :=
  instruction.pushed?.bind fun index =>
    (program.items[index]?.bind Embedded.declaration?).map (index, ·)

/-- An instruction pushes a function. -/
def PushesAt (program : Snapshot) (pc index : ℕ) (declaration : Declaration) : Prop :=
  ∃ instruction, program.code[pc]? = some instruction ∧
    program.pushed? instruction = some (index, declaration)

/-- An instruction that `PushesAt` its place a function that has a name. -/
def NamesAt (program : Snapshot) (pc index : ℕ) (declaration : Declaration) : Prop :=
  program.PushesAt pc index declaration ∧ declaration.name ≠ []

/-- An instruction that `NamesAt` its place a function which has not been pushed before. -/
def IntroducesAt (program : Snapshot) (pc index : ℕ) (declaration : Declaration) : Prop :=
  program.NamesAt pc index declaration ∧
    ∀ earlier < pc, ¬ program.PushesAt earlier index declaration

/-- The names of the functions that are pushed in front of an instruction. -/
def namesBefore (program : Snapshot) (names : ℕ → Text) (pc : ℕ) : Set Text :=
  {name | ∃ earlier < pc, ∃ index declaration,
    program.NamesAt earlier index declaration ∧ names index = name}

/-- The instructions of a program are printed as some lines. -/
def PrintsAs (program : Snapshot) (lines : List Text) : Prop :=
  Assembly.instructionLines program (Assembly.targets program) {} (Assembly.numbered program) =
    .ok lines

/-- The line of an instruction that pushes a function, of which this is shown. -/
def pushLine (program : Snapshot) (pc : ℕ) (shown : Text) : Text :=
  labelLine (Assembly.targets program) (Int64.ofNat pc) ++
    9 :: (Text.ofString "push func " ++ shown) ++ Text.ofString "\n"

end ProgramOf

namespace Assembly

/-! ### Renaming -/

/-- The name that is tried in a round of renaming. -/
def roundName (base : Text) : ℕ → Text
  | 0 => base
  | round + 1 => base ++ 95 :: Text.ofNat (round + 2)

theorem nameCandidates_eq (base : Text) (count : ℕ) :
    nameCandidates base count = (List.range (count + 1)).map (roundName base) := by
  rw [List.range_succ_eq_map, List.map_cons, List.map_map]
  rfl

/-- `freshName` ends with the first `roundName` that is not in use, after as many rounds as there
are names in use or earlier. -/
theorem freshName_eq (used : List Text) (base : Text) :
    ∃ round ≤ used.length, IsLeast {round | roundName base round ∉ used} round ∧
      freshName used base = roundName base round := by
  have found : ∃ round, (List.range (used.length + 1)).find?
      ((fun name => decide (name ∉ used)) ∘ roundName base) = some round := by
    obtain ⟨name, candidate, fresh⟩ := exists_fresh used base
    rw [nameCandidates_eq] at candidate
    obtain ⟨round, within, rfl⟩ := List.mem_map.mp candidate
    exact Option.isSome_iff_exists.mp (List.find?_isSome.mpr ⟨round, within, decide_eq_true fresh⟩)
  obtain ⟨round, isFirst⟩ := found
  have same : freshName used base = roundName base round := by
    rw [freshName, nameCandidates_eq, List.find?_map, isFirst]
    rfl
  obtain ⟨fresh, within, earlier⟩ := List.find?_range_eq_some.mp isFirst
  refine ⟨round, Nat.le_of_lt_succ (List.mem_range.mp within),
    ⟨of_decide_eq_true fresh, fun other unused => ?_⟩, same⟩
  by_contra before
  have taken := earlier other (Nat.lt_of_not_le before)
  exact unused (by simpa using taken)

/-! ### What has been printed -/

/-- What is printed of functions behind an instruction. -/
def Printed.behind (program : Snapshot) (printed : Printed) (instruction : Instruction ℕ) :
    Printed :=
  match program.pushed? instruction with
  | some (index, declaration) => (functionText printed index declaration).1
  | none => printed

/-- What is `Printed.behind` some instructions. -/
def printedBehind (program : Snapshot) (code : List (Instruction ℕ)) : Printed :=
  code.foldl (Printed.behind program) {}

theorem printedBehind_append_singleton (program : Snapshot) (code : List (Instruction ℕ))
    (instruction : Instruction ℕ) :
    printedBehind program (code ++ [instruction]) =
      (printedBehind program code).behind program instruction := by
  unfold printedBehind
  rw [List.foldl_append]
  rfl

theorem pushed?_eq_some_iff {program : Snapshot} {instruction : Instruction ℕ} {index : ℕ}
    {declaration : Declaration} :
    program.pushed? instruction = some (index, declaration) ↔
      instruction.opcode = .push ∧ instruction.datum.kind = .object ∧
        instruction.datum.object = some index ∧
        program.items[index]?.bind Embedded.declaration? = some declaration := by
  unfold ProgramOf.pushed?
  rw [Option.bind_eq_some_iff]
  constructor
  · rintro ⟨number, pushed, found⟩
    obtain ⟨item, isItem, same⟩ := Option.map_eq_some_iff.mp found
    cases same
    obtain ⟨isPush, isObject, refers⟩ := Instruction.pushed?_eq_some.mp pushed
    exact ⟨isPush, isObject, refers, isItem⟩
  · rintro ⟨isPush, isObject, refers, isItem⟩
    refine ⟨index, Instruction.pushed?_eq_some.mpr ⟨isPush, isObject, refers⟩, ?_⟩
    rw [isItem]
    rfl

theorem pushed?_eq_none {program : Snapshot} {instruction : Instruction ℕ}
    (other : ∀ index declaration, program.pushed? instruction ≠ some (index, declaration)) :
    program.pushed? instruction = none :=
  Option.eq_none_iff_forall_ne_some.mpr fun function => other function.1 function.2

theorem behind_of_none {program : Snapshot} {instruction : Instruction ℕ}
    (none : program.pushed? instruction = none) (printed : Printed) :
    printed.behind program instruction = printed := by
  rw [Printed.behind, none]

theorem behind_of_some {program : Snapshot} {instruction : Instruction ℕ} {index : ℕ}
    {declaration : Declaration} (pushed : program.pushed? instruction = some (index, declaration))
    (printed : Printed) :
    printed.behind program instruction = (functionText printed index declaration).1 := by
  rw [Printed.behind, pushed]

/-- An instruction leaves behind what is printed of functions then, and shows the function that it
pushes. -/
structure Prints (program : Snapshot) (printed : Printed) (instruction : Instruction ℕ)
    (after : Printed) (text : Text) : Prop where
  after : after = printed.behind program instruction
  function : ∀ index declaration, program.pushed? instruction = some (index, declaration) →
    text = Text.ofString "push func " ++ (functionText printed index declaration).2

theorem prints_of_none {program : Snapshot} {instruction : Instruction ℕ}
    (none : program.pushed? instruction = none) (printed : Printed) (text : Text) :
    Prints program printed instruction printed text where
  after := (behind_of_none none printed).symm
  function _ _ pushed := by cases none.symm.trans pushed

theorem prints_of_literalText {program : Snapshot} {printed after : Printed}
    {instruction : Instruction ℕ} {operand : Text} (isPush : instruction.opcode = .push)
    (prints : literalText program printed instruction.datum = .ok (after, operand)) :
    Prints program printed instruction after (Text.ofString "push " ++ operand) := by
  unfold literalText at prints
  cases kind : instruction.datum.kind with
  | object =>
    rw [kind] at prints
    dsimp only at prints
    unfold ProgramOf.item? at prints
    split at prints
    · case h_1 index declaration refers found =>
      rw [refers] at found
      have pushed : program.pushed? instruction = some (index, declaration) :=
        pushed?_eq_some_iff.mpr ⟨isPush, kind, refers, found⟩
      cases prints
      refine ⟨(behind_of_some pushed printed).symm, fun other same again => ?_⟩
      cases pushed.symm.trans again
      rfl
    · case h_2 other =>
      have none : program.pushed? instruction = none := by
        refine pushed?_eq_none fun index declaration pushed => ?_
        obtain ⟨-, -, refers, found⟩ := pushed?_eq_some_iff.mp pushed
        exact other index declaration refers (by rwa [refers])
      cases prints
      exact prints_of_none none printed _
  | unknown beyond =>
    rw [kind] at prints
    cases prints
  | null | number | text | name | bool =>
    have none : program.pushed? instruction = none :=
      pushed?_eq_none fun index declaration pushed => by
        cases kind.symm.trans (pushed?_eq_some_iff.mp pushed).2.1
    rw [kind] at prints
    cases prints
    exact prints_of_none none printed _

theorem prints_of_instructionText {program : Snapshot} {printed after : Printed} {pc : ℕ}
    {instruction : Instruction ℕ} {text : Text}
    (prints : instructionText program printed pc instruction = .ok (after, text)) :
    Prints program printed instruction after text := by
  have plain (other : instruction.opcode.operandClass ≠ .literal) (same : printed = after) :
      Prints program printed instruction after text := by
    subst same
    refine prints_of_none (pushed?_eq_none fun index declaration pushed => other ?_) printed text
    exact Opcode.operandClass_eq_literal.mpr (pushed?_eq_some_iff.mp pushed).1
  unfold instructionText at prints
  dsimp only at prints
  split at prints
  · case h_1 isClass =>
    cases prints
    exact plain (by rw [isClass]; decide) rfl
  · case h_2 isClass =>
    cases prints
    exact plain (by rw [isClass]; decide) rfl
  · case h_3 isClass =>
    cases prints
    exact plain (by rw [isClass]; decide) rfl
  · case h_4 isClass =>
    refine plain (by rw [isClass]; decide) ?_
    split at prints <;>
    · cases prints
      rfl
  · case h_5 isClass =>
    have isPush := Opcode.operandClass_eq_literal.mp isClass
    obtain ⟨⟨behind, operand⟩, shown, isText⟩ := bind_eq_ok_iff.mp prints
    cases isText
    rw [isPush]
    exact prints_of_literalText isPush shown

/-! ### The lines of instructions -/

/-- Each instruction has a line, which is printed behind those of the instructions in front. -/
theorem line_of_instructionLines {program : Snapshot} {labels : List Int64}
    (before : List (Instruction ℕ)) {code : List (Instruction ℕ)} {lines : List Text}
    (prints : instructionLines program labels (printedBehind program before)
      (numberedFrom before.length code) = .ok lines) :
    lines.length = code.length ∧ ∀ place instruction, code[place]? = some instruction →
      ∃ after text, instructionText program
          (printedBehind program (before ++ code.take place)) (before.length + place)
          instruction = .ok (after, text) ∧
        lines[place]? = some (labelLine labels (Int64.ofNat (before.length + place)) ++ 9 :: text ++
          Text.ofString "\n") := by
  induction code generalizing before lines with
  | nil =>
    cases prints
    exact ⟨rfl, fun _ _ found => by cases found⟩
  | cons first rest ih =>
    rw [numberedFrom_cons, instructionLines] at prints
    obtain ⟨⟨after, text⟩, shown, prints⟩ := bind_eq_ok_iff.mp prints
    obtain ⟨others, later, isLines⟩ := bind_eq_ok_iff.mp prints
    cases isLines
    have behind := (prints_of_instructionText shown).after
    rw [← printedBehind_append_singleton] at behind
    rw [behind] at later
    have count : (before ++ [first]).length = before.length + 1 := List.length_append
    rw [← count] at later
    obtain ⟨length, others⟩ := ih _ later
    refine ⟨congrArg (· + 1) length, fun place instruction found => ?_⟩
    cases place with
    | zero =>
      cases found
      refine ⟨after, text, ?_, rfl⟩
      rw [List.take_zero, List.append_nil]
      exact shown
    | succ place =>
      obtain ⟨after, text, shown, line⟩ := others place instruction found
      rw [count, List.append_assoc, Nat.add_assoc, Nat.add_comm 1] at shown
      rw [count, Nat.add_assoc, Nat.add_comm 1] at line
      exact ⟨after, text, shown, line⟩

/-! ### Which programs have a listing -/

theorem exists_literalText {datum : Datum ℕ} (known : ∀ beyond, datum.kind ≠ .unknown beyond)
    (program : Snapshot) (printed : Printed) :
    ∃ result, literalText program printed datum = .ok result := by
  unfold literalText
  cases kind : datum.kind with
  | unknown beyond => exact absurd kind (known beyond)
  | object =>
    dsimp only
    split <;> exact ⟨_, rfl⟩
  | null | number | text | name | bool => exact ⟨_, rfl⟩

theorem exists_instructionText_iff {instruction : Instruction ℕ} (program : Snapshot)
    (printed : Printed) (pc : ℕ) :
    (∃ result, instructionText program printed pc instruction = .ok result) ↔
      instruction.OperandKnown := by
  unfold instructionText
  constructor
  · rintro ⟨result, shown⟩ isPush beyond unknown
    unfold literalText at shown
    rw [Opcode.operandClass_eq_literal.mpr isPush, unknown] at shown
    cases shown
  · intro known
    cases isClass : instruction.opcode.operandClass with
    | none | name | count => exact ⟨_, rfl⟩
    | jump =>
      dsimp only
      split <;> exact ⟨_, rfl⟩
    | literal =>
      have isPush := Opcode.operandClass_eq_literal.mp isClass
      obtain ⟨⟨after, text⟩, shown⟩ := exists_literalText (known isPush) program printed
      exact ⟨_, bind_eq_ok_iff.mpr ⟨_, shown, rfl⟩⟩

theorem exists_instructionLines {code : List (Instruction ℕ)}
    (known : ∀ instruction ∈ code, instruction.OperandKnown) (program : Snapshot)
    (labels : List Int64) (printed : Printed) (pc : ℕ) :
    ∃ lines, instructionLines program labels printed (numberedFrom pc code) = .ok lines := by
  induction code generalizing printed pc with
  | nil => exact ⟨[], rfl⟩
  | cons first rest ih =>
    obtain ⟨isFirst, others⟩ := List.forall_mem_cons.mp known
    obtain ⟨⟨after, text⟩, shown⟩ := (exists_instructionText_iff program printed pc).mpr isFirst
    obtain ⟨lines, later⟩ := ih others after (pc + 1)
    rw [numberedFrom_cons, instructionLines, shown]
    exact ⟨_, bind_eq_ok_iff.mpr ⟨(after, text), rfl, bind_eq_ok_iff.mpr ⟨lines, later, rfl⟩⟩⟩

end Assembly

namespace ProgramOf

variable {program : Snapshot} {lines : List Text}

theorem PrintsAs.length (prints : program.PrintsAs lines) : lines.length = program.code.size := by
  unfold PrintsAs at prints
  rw [Assembly.numbered_eq] at prints
  exact (Assembly.line_of_instructionLines [] prints).1

/-- Where a program `PrintsAs` lines, the line of an instruction has what is printed of it behind
those in front. -/
theorem PrintsAs.exists_text (prints : program.PrintsAs lines) {pc : ℕ}
    {instruction : Instruction ℕ} (found : program.code[pc]? = some instruction) :
    ∃ after text, Assembly.instructionText program
        (Assembly.printedBehind program (program.code.toList.take pc)) pc instruction =
          .ok (after, text) ∧
      lines[pc]? = some (labelLine (Assembly.targets program) (Int64.ofNat pc) ++ 9 :: text ++
        Text.ofString "\n") := by
  unfold PrintsAs at prints
  rw [Assembly.numbered_eq] at prints
  rw [← Array.getElem?_toList] at found
  have line := (Assembly.line_of_instructionLines [] prints).2 pc instruction found
  rwa [List.nil_append, List.length_nil, Nat.zero_add] at line

/-- There is a listing just if each instruction is `Instruction.OperandKnown`. -/
theorem exists_listing_iff (program : Snapshot) : (∃ text, program.listing = .ok text) ↔
    ∀ instruction ∈ program.code.toList, instruction.OperandKnown := by
  constructor
  · rintro ⟨text, isListing⟩ instruction member
    obtain ⟨lines, isLines, -⟩ := Assembly.bind_eq_ok_iff.mp isListing
    have prints : program.PrintsAs lines := isLines
    obtain ⟨pc, found⟩ := List.getElem?_of_mem member
    rw [Array.getElem?_toList] at found
    obtain ⟨after, text, shown, -⟩ := prints.exists_text found
    exact (Assembly.exists_instructionText_iff program _ pc).mp ⟨_, shown⟩
  · intro known
    obtain ⟨lines, prints⟩ :=
      Assembly.exists_instructionLines known program (Assembly.targets program) {} 0
    rw [← Assembly.numbered_eq] at prints
    exact ⟨_, Assembly.bind_eq_ok_iff.mpr ⟨lines, prints, rfl⟩⟩

end ProgramOf

namespace Assembly

/-! ### Names so far -/

/-- What is printed of one function: its name if it has been printed with one, the declaration
without a name if it has none, and the declaration under a new name if it comes first. -/
theorem functionText_of_lookup {printed : Printed} {index : ℕ} {name : Text}
    (found : printed.names.lookup index = some name) (declaration : Declaration) :
    functionText printed index declaration = (printed, name) := by
  rw [functionText, found]

theorem functionText_of_unnamed {printed : Printed} {index : ℕ} {declaration : Declaration}
    (absent : printed.names.lookup index = none) (unnamed : declaration.name = []) :
    functionText printed index declaration = (printed, declarationText [] declaration) := by
  rw [functionText, absent]
  exact if_pos unnamed

theorem functionText_of_new {printed : Printed} {index : ℕ} {declaration : Declaration}
    (absent : printed.names.lookup index = none) (named : declaration.name ≠ []) :
    functionText printed index declaration =
      (⟨printed.names ++ [(index, freshName printed.used (baseName declaration.name))]⟩,
        declarationText (freshName printed.used (baseName declaration.name)) declaration) := by
  rw [functionText, absent]
  exact if_neg named

/-- Some of the instructions push a function that has a name. -/
def Names (program : Snapshot) (code : List (Instruction ℕ)) (index : ℕ) : Prop :=
  ∃ instruction ∈ code, ∃ declaration,
    program.pushed? instruction = some (index, declaration) ∧ declaration.name ≠ []

theorem names_append_singleton {program : Snapshot} {code : List (Instruction ℕ)}
    {instruction : Instruction ℕ} {index : ℕ} :
    Names program (code ++ [instruction]) index ↔ Names program code index ∨
      ∃ declaration, program.pushed? instruction = some (index, declaration) ∧
        declaration.name ≠ [] := by
  simp [Names, or_and_right, exists_or]

/-- What is printed behind some instructions, `printedBehind`: a name for each function of them that
has one, and no name twice. -/
structure Printed.Holds (program : Snapshot) (code : List (Instruction ℕ)) (printed : Printed) :
    Prop where
  keys : ∀ index, (∃ name, printed.names.lookup index = some name) ↔ Names program code index
  once : (printed.names.map Prod.fst).Nodup
  identifiers : ∀ name ∈ printed.used, isIdentifier name = true
  apart : printed.used.Nodup
  length : printed.names.length ≤ code.length

theorem mem_names_of_lookup {printed : Printed} {index : ℕ} {name : Text}
    (found : printed.names.lookup index = some name) : (index, name) ∈ printed.names := by
  obtain ⟨before, after, split, -⟩ := List.lookup_eq_some_iff.mp found
  rw [split]
  exact List.mem_append_right _ List.mem_cons_self

namespace Printed.Holds

variable {program : Snapshot} {code : List (Instruction ℕ)} {printed : Printed}
  {instruction : Instruction ℕ}

/-- An instruction that names no new function changes nothing in what `Holds`. -/
theorem same (holds : printed.Holds program code)
    (known : ∀ index declaration, program.pushed? instruction = some (index, declaration) →
      declaration.name ≠ [] → Names program code index) :
    printed.Holds program (code ++ [instruction]) where
  keys index := by
    rw [holds.keys, names_append_singleton]
    refine ⟨.inl, ?_⟩
    rintro (before | ⟨declaration, pushed, named⟩)
    · exact before
    · exact known index declaration pushed named
  once := holds.once
  identifiers := holds.identifiers
  apart := holds.apart
  length := holds.length.trans (by simp)

/-- A function that is new gets a name of its own. -/
theorem new (holds : printed.Holds program code) {index : ℕ} {declaration : Declaration}
    (pushed : program.pushed? instruction = some (index, declaration))
    (absent : printed.names.lookup index = none) (named : declaration.name ≠ []) :
    Holds program (code ++ [instruction])
      ⟨printed.names ++ [(index, freshName printed.used (baseName declaration.name))]⟩ where
  keys other := by
    rw [names_append_singleton, ← holds.keys, pushed, List.lookup_append]
    by_cases same : other = index
    · subst same
      rw [absent, List.lookup_cons_self]
      exact iff_of_true ⟨_, rfl⟩ (.inr ⟨declaration, rfl, named⟩)
    · rw [List.lookup_cons, beq_false_of_ne same]
      simp [Ne.symm same]
  once := by
    rw [List.map_append, List.nodup_append]
    refine ⟨holds.once, List.nodup_singleton _, ?_⟩
    rintro key member _ last rfl
    obtain ⟨pair, among, rfl⟩ := List.mem_map.mp member
    have other := List.lookup_eq_none_iff.mp absent pair among
    simp [List.mem_singleton.mp last] at other
  identifiers := by
    unfold used
    rw [List.map_append]
    refine List.forall_mem_append.mpr ⟨holds.identifiers, List.forall_mem_singleton.mpr ?_⟩
    exact isIdentifier_freshName printed.used declaration.name
  apart := by
    unfold used
    rw [List.map_append, List.nodup_append]
    refine ⟨holds.apart, List.nodup_singleton _, ?_⟩
    rintro name member _ last rfl
    rw [List.map_singleton, List.mem_singleton] at last
    exact (freshName_spec printed.used _).2 (last ▸ member)
  length := by
    rw [List.length_append, List.length_append]
    exact Nat.add_le_add_right holds.length 1

theorem behind (holds : printed.Holds program code) (instruction : Instruction ℕ) :
    (printed.behind program instruction).Holds program (code ++ [instruction]) := by
  cases pushed : program.pushed? instruction with
  | none =>
    rw [behind_of_none pushed]
    exact holds.same fun index declaration again => by cases pushed.symm.trans again
  | some function =>
    obtain ⟨index, declaration⟩ := function
    rw [behind_of_some pushed]
    cases found : printed.names.lookup index with
    | some name =>
      rw [functionText_of_lookup found]
      refine holds.same fun other same again _ => ?_
      cases pushed.symm.trans again
      exact (holds.keys index).mp ⟨name, found⟩
    | none =>
      by_cases unnamed : declaration.name = []
      · rw [functionText_of_unnamed found unnamed]
        refine holds.same fun other same again named => absurd ?_ named
        cases pushed.symm.trans again
        exact unnamed
      · rw [functionText_of_new found unnamed]
        exact holds.new pushed found unnamed

/-- A name that is in use is that of a function. -/
theorem exists_lookup (holds : printed.Holds program code) {name : Text}
    (member : name ∈ printed.used) : ∃ index, printed.names.lookup index = some name := by
  obtain ⟨⟨index, name⟩, among, rfl⟩ := List.mem_map.mp member
  cases found : printed.names.lookup index with
  | none => simpa using List.lookup_eq_none_iff.mp found _ among
  | some other =>
    have same := List.inj_on_of_nodup_map holds.once among (mem_names_of_lookup found) rfl
    exact ⟨index, found.trans (congrArg (some ∘ Prod.snd) same.symm)⟩

end Printed.Holds

theorem holds_printedBehind (program : Snapshot) (code : List (Instruction ℕ)) :
    (printedBehind program code).Holds program code := by
  induction code using List.reverseRecOn with
  | nil =>
    refine ⟨fun index => iff_of_false ?_ ?_, List.nodup_nil, List.forall_mem_nil _,
      List.nodup_nil, Nat.le_refl _⟩
    · rintro ⟨name, found⟩
      cases found
    · rintro ⟨instruction, member, -⟩
      cases member
  | append_singleton code instruction ih =>
    rw [printedBehind_append_singleton]
    exact ih.behind instruction

/-- A name that was given stays. -/
theorem lookup_behind {program : Snapshot} {printed : Printed} {index : ℕ} {name : Text}
    (found : printed.names.lookup index = some name) (instruction : Instruction ℕ) :
    (printed.behind program instruction).names.lookup index = some name := by
  cases pushed : program.pushed? instruction with
  | none => rwa [behind_of_none pushed]
  | some function =>
    obtain ⟨other, declaration⟩ := function
    rw [behind_of_some pushed]
    cases there : printed.names.lookup other with
    | some shown => rwa [functionText_of_lookup there]
    | none =>
      by_cases unnamed : declaration.name = []
      · rwa [functionText_of_unnamed there unnamed]
      · rw [functionText_of_new there unnamed, List.lookup_append, found]
        rfl

theorem lookup_printedBehind {program : Snapshot} {code : List (Instruction ℕ)} {index : ℕ}
    {name : Text} (found : (printedBehind program code).names.lookup index = some name)
    (behind : List (Instruction ℕ)) :
    (printedBehind program (code ++ behind)).names.lookup index = some name := by
  induction behind using List.reverseRecOn with
  | nil => rwa [List.append_nil]
  | append_singleton behind instruction ih =>
    rw [← List.append_assoc, printedBehind_append_singleton]
    exact lookup_behind ih instruction

end Assembly

/-! ### Names of a program -/

open Assembly (printedBehind)

namespace ProgramOf

/-- The name that a function of a program is listed under. -/
def listedName (program : Snapshot) (index : ℕ) : Text :=
  ((printedBehind program program.code.toList).names.lookup index).getD []

variable {program : Snapshot} {pc index : ℕ} {declaration : Declaration}

/-- The name that is printed in front of an instruction is `listedName`, the one for the whole
listing. -/
theorem listedName_eq {before behind : List (Instruction ℕ)} {name : Text}
    (split : program.code.toList = before ++ behind)
    (found : (printedBehind program before).names.lookup index = some name) :
    program.listedName index = name := by
  rw [listedName, split, Assembly.lookup_printedBehind found behind]
  rfl

/-- Instructions that each `PushesAt` its place one function show one declaration. -/
theorem PushesAt.declaration_eq {other : ℕ} {again : Declaration}
    (pushes : program.PushesAt pc index declaration) (pushed : program.PushesAt other index again) :
    again = declaration := by
  obtain ⟨first, -, isFirst⟩ := pushes
  obtain ⟨second, -, isSecond⟩ := pushed
  obtain ⟨-, -, -, isItem⟩ := Assembly.pushed?_eq_some_iff.mp isFirst
  obtain ⟨-, -, -, sameItem⟩ := Assembly.pushed?_eq_some_iff.mp isSecond
  exact Option.some.inj (sameItem.symm.trans isItem)

/-- An instruction that pushes a function stands between those in front of it and those behind. -/
theorem PushesAt.exists_split (pushes : program.PushesAt pc index declaration) :
    ∃ before instruction behind, program.code.toList = before ++ instruction :: behind ∧
      before.length = pc ∧ program.pushed? instruction = some (index, declaration) := by
  obtain ⟨instruction, found, pushed⟩ := pushes
  rw [← Array.getElem?_toList] at found
  obtain ⟨within, here⟩ := List.getElem?_eq_some_iff.mp found
  refine ⟨program.code.toList.take pc, instruction, program.code.toList.drop (pc + 1), ?_,
    List.length_take_of_le within.le, pushed⟩
  rw [← here, ← List.drop_eq_getElem_cons within, List.take_append_drop]

theorem names_iff {before behind : List (Instruction ℕ)}
    (split : program.code.toList = before ++ behind) :
    Assembly.Names program before index ↔
      ∃ earlier < before.length, ∃ declaration, program.NamesAt earlier index declaration := by
  have code {earlier : ℕ} (within : earlier < before.length) :
      program.code[earlier]? = before[earlier]? := by
    rw [← Array.getElem?_toList, split, List.getElem?_append_left within]
  constructor
  · rintro ⟨instruction, member, declaration, pushed, named⟩
    obtain ⟨earlier, found⟩ := List.getElem?_of_mem member
    have within := (List.getElem?_eq_some_iff.mp found).1
    exact ⟨earlier, within, declaration, ⟨instruction, (code within).trans found, pushed⟩, named⟩
  · rintro ⟨earlier, within, declaration, ⟨instruction, found, pushed⟩, named⟩
    rw [code within] at found
    exact ⟨instruction, List.mem_of_getElem? found, declaration, pushed, named⟩

/-- The name of a function that is pushed in front is in use with it. -/
theorem NamesAt.lookup {before behind : List (Instruction ℕ)}
    (split : program.code.toList = before ++ behind) (within : pc < before.length)
    (names : program.NamesAt pc index declaration) :
    (printedBehind program before).names.lookup index = some (program.listedName index) := by
  obtain ⟨name, found⟩ := ((Assembly.holds_printedBehind program before).keys index).mpr
    ((names_iff split).mpr ⟨pc, within, declaration, names⟩)
  rw [found, listedName_eq split found]

theorem NamesAt.lookup_whole (names : program.NamesAt pc index declaration) :
    (printedBehind program program.code.toList).names.lookup index =
      some (program.listedName index) := by
  obtain ⟨before, instruction, behind, split, rfl, -⟩ := names.1.exists_split
  refine names.lookup (List.append_nil _).symm ?_
  rw [split, List.length_append, List.length_cons]
  omega

/-- The names in use in front of an instruction are `namesBefore` it. -/
theorem mem_used_iff {before behind : List (Instruction ℕ)}
    (split : program.code.toList = before ++ behind) {name : Text} :
    name ∈ (printedBehind program before).used ↔
      name ∈ program.namesBefore program.listedName before.length := by
  have holds := Assembly.holds_printedBehind program before
  constructor
  · intro member
    obtain ⟨index, found⟩ := holds.exists_lookup member
    obtain ⟨earlier, within, declaration, names⟩ :=
      (names_iff split).mp ((holds.keys index).mp ⟨name, found⟩)
    exact ⟨earlier, within, index, declaration, names, listedName_eq split found⟩
  · rintro ⟨earlier, within, index, declaration, names, rfl⟩
    exact List.mem_map_of_mem (Assembly.mem_names_of_lookup (names.lookup split within))

/-- A function that has not been pushed before has no name yet. -/
theorem lookup_eq_none {before behind : List (Instruction ℕ)}
    (split : program.code.toList = before ++ behind)
    (new : ∀ earlier < before.length, ∀ declaration, ¬ program.NamesAt earlier index declaration) :
    (printedBehind program before).names.lookup index = none := by
  by_contra found
  have known := ((Assembly.holds_printedBehind program before).keys index).mp
    (Option.ne_none_iff_exists'.mp found)
  obtain ⟨earlier, within, declaration, names⟩ := (names_iff split).mp known
  exact new earlier within declaration names

theorem IntroducesAt.lookup {before behind : List (Instruction ℕ)}
    (split : program.code.toList = before ++ behind)
    (introduces : program.IntroducesAt before.length index declaration) :
    (printedBehind program before).names.lookup index = none := by
  refine lookup_eq_none split fun earlier within other names => ?_
  rw [introduces.1.1.declaration_eq names.1] at names
  exact introduces.2 earlier within names.1

/-- A function that an instruction `IntroducesAt` its place gets the first `roundName` that is not
in use. -/
theorem IntroducesAt.listedName_eq {before behind : List (Instruction ℕ)}
    {instruction : Instruction ℕ} (split : program.code.toList = before ++ instruction :: behind)
    (pushed : program.pushed? instruction = some (index, declaration))
    (introduces : program.IntroducesAt before.length index declaration) :
    program.listedName index =
      Assembly.freshName (printedBehind program before).used (baseName declaration.name) := by
  have absent := introduces.lookup split
  rw [List.append_cons] at split
  refine ProgramOf.listedName_eq split ?_
  rw [Assembly.printedBehind_append_singleton, Assembly.behind_of_some pushed,
    Assembly.functionText_of_new absent introduces.1.2, List.lookup_append, absent,
    List.lookup_cons_self]
  rfl

/-- The names that a listing gives to the functions of a program: identifiers, and a different one
for each. A function gets its name where it is first pushed, in the first round of renaming whose
name is not in use by then; so many rounds at most as there are instructions in front. -/
structure Naming (program : Snapshot) (names : ℕ → Text) : Prop where
  identifier : ∀ {pc index declaration}, program.NamesAt pc index declaration →
    isIdentifier (names index) = true
  apart : ∀ {pc other index second declaration further}, program.NamesAt pc index declaration →
    program.NamesAt other second further → names index = names second → index = second
  renamed : ∀ {pc index declaration}, program.IntroducesAt pc index declaration →
    ∃ round ≤ pc, IsLeast {round | Assembly.roundName (baseName declaration.name) round ∉
        program.namesBefore names pc} round ∧
      names index = Assembly.roundName (baseName declaration.name) round

theorem naming_listedName (program : Snapshot) : program.Naming program.listedName where
  identifier names :=
    (Assembly.holds_printedBehind program program.code.toList).identifiers _
      (List.mem_map_of_mem (Assembly.mem_names_of_lookup names.lookup_whole))
  apart first second same := by
    have holds := Assembly.holds_printedBehind program program.code.toList
    have pairs := List.inj_on_of_nodup_map holds.apart
      (Assembly.mem_names_of_lookup first.lookup_whole)
      (Assembly.mem_names_of_lookup second.lookup_whole) same
    exact congrArg Prod.fst pairs
  renamed introduces := by
    obtain ⟨before, instruction, behind, split, rfl, pushed⟩ := introduces.1.1.exists_split
    obtain ⟨round, bound, first, same⟩ :=
      Assembly.freshName_eq (printedBehind program before).used (baseName _)
    simp only [mem_used_iff split] at first
    refine ⟨round, bound.trans ?_, first, (introduces.listedName_eq split pushed).trans same⟩
    rw [Assembly.Printed.used, List.length_map]
    exact (Assembly.holds_printedBehind program before).length

/-- A function that an instruction `NamesAt` its place is introduced, `IntroducesAt`, in one place.
-/
theorem NamesAt.existsUnique_introducesAt (names : program.NamesAt pc index declaration) :
    ∃! first, program.IntroducesAt first index declaration := by
  classical
  have pushed : ∃ first, program.PushesAt first index declaration := ⟨pc, names.1⟩
  refine ⟨Nat.find pushed, ⟨⟨Nat.find_spec pushed, names.2⟩, fun earlier before =>
    Nat.find_min pushed before⟩, fun other introduces => ?_⟩
  refine Nat.le_antisymm ?_ (Nat.find_min' pushed introduces.1.1)
  by_contra later
  exact introduces.2 _ (Nat.lt_of_not_le later) (Nat.find_spec pushed)

/-- What a listing shows of functions under some names: a function without a name in full, one with
a name in full where it is first pushed, which is in one place, and only its name from then on. -/
structure Shown (program : Snapshot) (names : ℕ → Text) (lines : List Text) : Prop where
  unnamed : ∀ {pc index declaration}, program.PushesAt pc index declaration →
    declaration.name = [] → lines[pc]? = some (program.pushLine pc (declarationText [] declaration))
  first : ∀ {pc index declaration}, program.IntroducesAt pc index declaration →
    lines[pc]? = some (program.pushLine pc (declarationText (names index) declaration))
  once : ∀ {pc index declaration}, program.NamesAt pc index declaration →
    ∃! first, program.IntroducesAt first index declaration
  later : ∀ {pc index declaration}, program.NamesAt pc index declaration →
    ¬ program.IntroducesAt pc index declaration →
    lines[pc]? = some (program.pushLine pc (names index))

/-- An instruction that `PushesAt` its place a function shows it as it is printed behind the ones in
front. -/
theorem PushesAt.exists_line {lines : List Text} (prints : program.PrintsAs lines)
    (pushes : program.PushesAt pc index declaration) :
    ∃ before instruction behind, program.code.toList = before ++ instruction :: behind ∧
      before.length = pc ∧ program.pushed? instruction = some (index, declaration) ∧
      lines[pc]? = some (program.pushLine pc
        (Assembly.functionText (printedBehind program before) index declaration).2) := by
  obtain ⟨before, instruction, behind, split, rfl, pushed⟩ := pushes.exists_split
  have found : program.code[before.length]? = some instruction := by
    rw [← Array.getElem?_toList, split, List.getElem?_append_right (Nat.le_refl _), Nat.sub_self]
    rfl
  obtain ⟨after, text, shown, line⟩ := prints.exists_text found
  refine ⟨before, instruction, behind, split, rfl, pushed, ?_⟩
  rw [split, List.take_left] at shown
  rw [line, (Assembly.prints_of_instructionText shown).function index declaration pushed]
  rfl

theorem PrintsAs.shown {lines : List Text} (prints : program.PrintsAs lines) :
    program.Shown program.listedName lines where
  unnamed pushes unnamed := by
    obtain ⟨before, instruction, behind, split, rfl, pushed, line⟩ := pushes.exists_line prints
    have absent : (printedBehind program before).names.lookup _ = none :=
      lookup_eq_none split fun earlier within other names =>
        names.2 ((pushes.declaration_eq names.1).symm ▸ unnamed)
    rw [line, Assembly.functionText_of_unnamed absent unnamed]
  first introduces := by
    obtain ⟨before, instruction, behind, split, rfl, pushed, line⟩ :=
      introduces.1.1.exists_line prints
    rw [line, Assembly.functionText_of_new (introduces.lookup split) introduces.1.2,
      introduces.listedName_eq split pushed]
  once names := names.existsUnique_introducesAt
  later names known := by
    obtain ⟨before, instruction, behind, split, rfl, pushed, line⟩ := names.1.exists_line prints
    obtain ⟨earlier, within, pushes⟩ : ∃ earlier < before.length,
        program.PushesAt earlier _ _ := by
      by_contra new
      push Not at new
      exact known ⟨names, new⟩
    have found := NamesAt.lookup split within ⟨pushes, names.2⟩
    rw [line, Assembly.functionText_of_lookup found]

end ProgramOf

end ScriptEngine
