/-
This file arranges a program as its listing has it. The functions are numbered anew in the order in
which the listing spells them out; one without a name is spelt out, and so is a function of its own,
wherever it is pushed. Of an instruction there remains what its opcode takes. Whatever the program
is, as long as no operand of a push is of an unknown kind, what was arranged has the same listing.
-/

import Mathlib
import ScriptEngine.Proofs.Assembly.Printing

namespace ScriptEngine

open Number (Layout)

/-! ### Arranged instructions -/

/-- The count that a number is written as, or else the number. -/
def Number.counted (number : Float) : Float :=
  match Text.int64? (Layout.value.write number) with
  | some count => if 0 ≤ count then ofNat count.toNatClampNeg else number
  | none => number

/-- The function that an instruction pushes. -/
def Instruction.pushed? (instruction : Instruction ℕ) : Option ℕ :=
  if instruction.opcode = .push then instruction.function? else none

namespace Assembly

/-- A function has no name that it could be pushed by. -/
def Unnamed (items : List Declaration) (index : ℕ) : Prop :=
  items[index]?.map Declaration.name = some []

instance (items : List Declaration) (index : ℕ) : Decidable (Unnamed items index) :=
  inferInstanceAs (Decidable (_ = _))

/-- A function is spelt out where it is pushed behind others. -/
def SpeltOut (items : List Declaration) (met : List ℕ) (index : ℕ) : Prop :=
  index ∉ met ∨ Unnamed items index

instance (items : List Declaration) (met : List ℕ) (index : ℕ) :
    Decidable (SpeltOut items met index) :=
  inferInstanceAs (Decidable (_ ∨ _))

/-- The functions that are spelt out up to a function that is pushed. -/
def metWith (items : List Declaration) (met : List ℕ) (index : ℕ) : List ℕ :=
  if SpeltOut items met index then met ++ [index] else met

/-- The number that a function gets where it is pushed. -/
def numberOf (items : List Declaration) (met : List ℕ) (index : ℕ) : ℕ :=
  if SpeltOut items met index then met.length else met.idxOf index

/-- The functions that are spelt out up to an instruction. -/
def metBehind (items : List Declaration) (met : List ℕ) (instruction : Instruction ℕ) : List ℕ :=
  instruction.pushed?.elim met (metWith items met)

/-- The operand of a push as a listing has it. -/
def arrangedLiteral (items : List Declaration) (met : List ℕ) (datum : Datum ℕ) : Datum ℕ :=
  match datum.kind with
  | .null | .unknown _ => {}
  | .number => .ofNumber datum.number
  | .text | .name => .ofText datum.text
  | .bool => .ofBool datum.bool
  | .object => .ofObject (datum.object.map (numberOf items met))

/-- The operand of an instruction as a listing has it. -/
def arrangedDatum (items : List Declaration) (met : List ℕ) (instruction : Instruction ℕ) :
    Datum ℕ :=
  match instruction.opcode.operandClass with
  | .none | .jump => {}
  | .name =>
    if instruction.datum.kind = .name then .ofName instruction.datum.text
    else .ofText instruction.datum.text
  | .count => .ofNumber (Number.counted instruction.datum.number)
  | .literal => arrangedLiteral items met instruction.datum

end Assembly

/-- An instruction as a listing has it behind some functions that were spelt out. -/
def Instruction.arranged (items : List Declaration) (met : List ℕ) (instruction : Instruction ℕ) :
    Instruction ℕ where
  opcode := instruction.opcode
  jump := if instruction.opcode.operandClass = .jump then instruction.jump else 0
  datum := Assembly.arrangedDatum items met instruction

namespace Assembly

/-- Instructions as a listing has them, each `Instruction.arranged` behind the ones in front. -/
def arrangedFrom (items : List Declaration) :
    List ℕ → List (Instruction ℕ) → List (Instruction ℕ)
  | _, [] => []
  | met, instruction :: rest =>
    instruction.arranged items met :: arrangedFrom items (metBehind items met instruction) rest

/-- The functions that are spelt out up to the end of some instructions. -/
def metFrom (items : List Declaration) (met : List ℕ) (code : List (Instruction ℕ)) : List ℕ :=
  code.foldl (metBehind items) met

end Assembly

/-- A program as its listing has it. -/
def Program.arranged (program : Program) : Program :=
  { program with
    code := (Assembly.arrangedFrom program.items.toList [] program.code.toList).toArray
    items := ((Assembly.metFrom program.items.toList [] program.code.toList).map
      fun index => program.items.toList[index]?.getD {}).toArray }

/-- Whatever a program pushes is of a known kind. -/
def Program.PushesKnown (program : Program) : Prop :=
  ∀ instruction ∈ program.code.toList, instruction.opcode = .push →
    ∀ beyond, instruction.datum.kind ≠ .unknown beyond

/-- A program that can be listed: it has opcodes and functions, and pushes what is of a known
kind. -/
structure Program.Listable (program : Program) : Prop where
  opcodes : ∀ instruction ∈ program.code.toList, instruction.opcode ∈ Opcode.valid
  linked : ∀ instruction ∈ program.code.toList, instruction.datum.kind = .object →
    ∃ index declaration, instruction.datum.object = some index ∧
      program.items.toList[index]? = some declaration
  known : program.PushesKnown

theorem Instruction.pushed?_eq_some {instruction : Instruction ℕ} {index : ℕ} :
    instruction.pushed? = some index ↔ instruction.opcode = .push ∧
      instruction.datum.kind = .object ∧ instruction.datum.object = some index := by
  unfold pushed? function?
  split
  · split <;> simp_all
  · simp_all

namespace Assembly

variable {items : List Declaration} {met : List ℕ} {index : ℕ}

/-! ### How functions are numbered -/

theorem metWith_of_speltOut (spelt : SpeltOut items met index) :
    metWith items met index = met ++ [index] := if_pos spelt

theorem numberOf_of_speltOut (spelt : SpeltOut items met index) :
    numberOf items met index = met.length := if_pos spelt

theorem exists_metWith (items : List Declaration) (met : List ℕ) (index : ℕ) :
    ∃ more, metWith items met index = met ++ more := by
  unfold metWith
  split
  · exact ⟨_, rfl⟩
  · exact ⟨[], (List.append_nil met).symm⟩

theorem exists_metBehind (items : List Declaration) (met : List ℕ) (instruction : Instruction ℕ) :
    ∃ more, metBehind items met instruction = met ++ more := by
  unfold metBehind
  cases instruction.pushed? with
  | none => exact ⟨[], (List.append_nil met).symm⟩
  | some index => exact exists_metWith items met index

/-- Functions that are spelt out stay so. -/
theorem exists_metFrom (items : List Declaration) (met : List ℕ) (code : List (Instruction ℕ)) :
    ∃ more, metFrom items met code = met ++ more := by
  induction code generalizing met with
  | nil => exact ⟨[], (List.append_nil met).symm⟩
  | cons instruction rest ih =>
    obtain ⟨here, isHere⟩ := exists_metBehind items met instruction
    obtain ⟨more, isMore⟩ := ih (metBehind items met instruction)
    refine ⟨here ++ more, ?_⟩
    rw [← List.append_assoc, ← isHere, ← isMore]
    rfl

theorem metFrom_append (met : List ℕ) (first second : List (Instruction ℕ)) :
    metFrom items met (first ++ second) = metFrom items (metFrom items met first) second :=
  List.foldl_append

theorem metFrom_snoc (met : List ℕ) (before : List (Instruction ℕ))
    (instruction : Instruction ℕ) :
    metFrom items met (before ++ [instruction]) =
      metBehind items (metFrom items met before) instruction :=
  metFrom_append met before [instruction]

theorem arrangedFrom_append (met : List ℕ) (first second : List (Instruction ℕ)) :
    arrangedFrom items met (first ++ second) =
      arrangedFrom items met first ++ arrangedFrom items (metFrom items met first) second := by
  induction first generalizing met with
  | nil => rfl
  | cons instruction rest ih => exact congrArg (List.cons _) (ih _)

theorem length_arrangedFrom (met : List ℕ) (code : List (Instruction ℕ)) :
    (arrangedFrom items met code).length = code.length := by
  induction code generalizing met with
  | nil => rfl
  | cons instruction rest ih => exact congrArg (· + 1) (ih _)

/-- A function has the number of its place among those that are spelt out, `metWith`. -/
theorem getElem?_numberOf (items : List Declaration) (met : List ℕ) (index : ℕ) :
    (metWith items met index)[numberOf items met index]? = some index := by
  unfold metWith numberOf
  split
  · exact List.getElem?_concat_length
  · case isFalse other =>
    have member : index ∈ met := not_not.mp (not_or.mp other).1
    exact List.getElem?_idxOf member

/-- As many functions are met as are spelt out. -/
theorem length_metWith (items : List Declaration) (met : List ℕ) (index : ℕ) :
    max met.length (numberOf items met index + 1) = (metWith items met index).length := by
  unfold metWith numberOf
  split
  · rw [List.length_append, List.length_singleton]
    omega
  · case isFalse other =>
    have member : index ∈ met := not_not.mp (not_or.mp other).1
    have below := List.idxOf_lt_length_of_mem member
    omega

theorem function?_arranged (items : List Declaration) (met : List ℕ)
    (instruction : Instruction ℕ) :
    (instruction.arranged items met).function? =
      instruction.pushed?.map (numberOf items met) := by
  unfold Instruction.arranged arrangedDatum Instruction.pushed?
  by_cases push : instruction.opcode = .push
  · rw [if_pos push, Opcode.operandClass_eq_literal.mpr push]
    dsimp only
    unfold arrangedLiteral Instruction.function?
    cases kind : instruction.datum.kind <;> simp [Datum.ofNumber, Datum.ofText, Datum.ofBool,
      Datum.ofObject]
  · have other := mt Opcode.operandClass_eq_literal.mp push
    rw [if_neg push]
    generalize instruction.opcode.operandClass = operand at other
    cases operand with
    | literal => exact absurd rfl other
    | none | jump | count => rfl
    | name =>
      unfold Instruction.function?
      dsimp only
      split <;> rfl

theorem pushed?_arranged (items : List Declaration) (met : List ℕ)
    (instruction : Instruction ℕ) :
    (instruction.arranged items met).pushed? =
      instruction.pushed?.map (numberOf items met) := by
  by_cases push : instruction.opcode = .push
  · exact (if_pos push).trans (function?_arranged items met instruction)
  · rw [show (instruction.arranged items met).pushed? = none from if_neg push,
      show instruction.pushed? = none from if_neg push]
    rfl

/-- The numbers of the arranged instructions `reach` as far as functions are spelt out. -/
theorem reach_arrangedFrom (items : List Declaration) (before : List (Instruction ℕ)) :
    reach (functionsUsed (arrangedFrom items [] before)) = (metFrom items [] before).length := by
  -- from the end, as each number depends on all functions in front of it
  induction before using List.reverseRecOn with
  | nil => rfl
  | append_singleton before instruction ih =>
    rw [arrangedFrom_append, arrangedFrom, arrangedFrom, reach_functionsUsed_snoc, ih, metAfter,
      function?_arranged, metFrom_snoc, metBehind]
    cases instruction.pushed? with
    | none => rfl
    | some index => exact length_metWith items _ index

/-! ### How functions are printed -/

/-- What is printed of a program and of the arranged one: the same names, of functions that
correspond. -/
structure Alike (items : List Declaration) (met : List ℕ) (printed other : Printed) : Prop where
  used : printed.used = other.used
  again : ∀ index, ¬ SpeltOut items met index → ∃ name,
    printed.names.lookup index = some name ∧ other.names.lookup (met.idxOf index) = some name
  unmet : ∀ index, SpeltOut items met index → printed.names.lookup index = none
  next : ∀ number, met.length ≤ number → other.names.lookup number = none

theorem alike_empty (items : List Declaration) : Alike items [] {} {} where
  used := rfl
  again _ notSpelt := absurd (.inl List.not_mem_nil) notSpelt
  unmet _ _ := rfl
  next _ _ := rfl

namespace Alike

variable {printed other : Printed}

theorem unnamed (alike : Alike items met printed other) (none : Unnamed items index) :
    Alike items (met ++ [index]) printed other where
  used := alike.used
  again another notSpelt := by
    obtain ⟨member, named⟩ := not_or.mp notSpelt
    have apart : another ≠ index := fun same => named (same ▸ none)
    have earlier : another ∈ met := by simpa [apart] using not_not.mp member
    rw [List.idxOf_append_of_mem earlier]
    exact alike.again another (not_or.mpr ⟨not_not.mpr earlier, named⟩)
  unmet another spelt :=
    alike.unmet another (spelt.imp_left fun absent => mt (List.mem_append_left _) absent)
  next number long := by
    rw [List.length_append] at long
    exact alike.next number ((Nat.le_add_right ..).trans long)

theorem lookup_last {names : List (ℕ × Text)} {number another : ℕ} {name : Text} :
    (names ++ [(number, name)]).lookup another =
      (names.lookup another).or (if another = number then some name else none) := by
  rw [List.lookup_append, List.lookup_cons]
  split <;> simp_all

theorem named (alike : Alike items met printed other) (absent : index ∉ met)
    (filled : ¬ Unnamed items index) (name : Text) :
    Alike items (met ++ [index]) ⟨printed.names ++ [(index, name)]⟩
      ⟨other.names ++ [(met.length, name)]⟩ where
  used := by
    have used := alike.used
    unfold Printed.used at used ⊢
    rw [List.map_append, List.map_append, used]
    rfl
  again another notSpelt := by
    obtain ⟨member, named⟩ := not_or.mp notSpelt
    rw [lookup_last, lookup_last]
    by_cases same : another = index
    · subst same
      refine ⟨name, ?_, ?_⟩
      · rw [alike.unmet another (.inl absent), if_pos rfl]
        rfl
      · rw [List.idxOf_append_of_notMem absent, List.idxOf_cons_self, Nat.add_zero,
          alike.next met.length le_rfl, if_pos rfl]
        rfl
    · have earlier : another ∈ met := by simpa [same] using not_not.mp member
      obtain ⟨earlierName, found, otherFound⟩ :=
        alike.again another (not_or.mpr ⟨not_not.mpr earlier, named⟩)
      rw [List.idxOf_append_of_mem earlier, found, otherFound]
      exact ⟨earlierName, rfl, rfl⟩
  unmet another spelt := by
    have apart : another ≠ index := by
      rintro rfl
      rcases spelt with absent | none
      · exact absent (List.mem_append_right _ (List.mem_singleton_self _))
      · exact filled none
    rw [lookup_last, if_neg apart, Option.or_none]
    exact alike.unmet another (spelt.imp_left fun absent => mt (List.mem_append_left _) absent)
  next number long := by
    rw [List.length_append, List.length_singleton] at long
    rw [lookup_last, if_neg (by omega), Option.or_none]
    exact alike.next number (by omega)

end Alike

/-- A function is printed `Alike` in a program and in the arranged one. -/
theorem functionText_numberOf {printed other : Printed} {declaration : Declaration}
    (alike : Alike items met printed other) (found : items[index]? = some declaration) :
    ∃ after otherAfter text, functionText printed index declaration = (after, text) ∧
      functionText other (numberOf items met index) declaration = (otherAfter, text) ∧
      Alike items (metWith items met index) after otherAfter := by
  by_cases spelt : SpeltOut items met index
  · -- neither index has a name yet, and the names in use are the same
    rw [numberOf_of_speltOut spelt, metWith_of_speltOut spelt]
    unfold functionText
    rw [alike.unmet index spelt, alike.next met.length le_rfl]
    dsimp only
    by_cases none : declaration.name = []
    · rw [if_pos none, if_pos none]
      exact ⟨printed, other, _, rfl, rfl, alike.unnamed (by rw [Unnamed, found, ← none]; rfl)⟩
    · have filled : ¬ Unnamed items index := by
        rw [Unnamed, found]
        exact fun same => none (Option.some.inj same)
      rw [if_neg none, if_neg none, alike.used]
      exact ⟨_, _, _, rfl, rfl, alike.named (spelt.resolve_right filled) filled _⟩
  · -- both have the name that the function was spelt out with
    obtain ⟨name, seen, otherSeen⟩ := alike.again index spelt
    unfold functionText numberOf metWith
    rw [if_neg spelt, if_neg spelt, seen, otherSeen]
    exact ⟨printed, other, name, rfl, rfl, alike⟩

/-! ### How instructions are printed -/

theorem write_counted (number : Float) :
    Layout.value.write (Number.counted number) = Layout.value.write number := by
  unfold Number.counted
  split
  · case h_1 count read =>
    split
    · case isTrue natural =>
      have denotes := (Text.int64?_eq_some_iff.mp read).1
      rw [Int64.le_iff_toInt_le, show (0 : Int64).toInt = 0 from rfl] at natural
      refine Layout.write_ofNat_of_denotes ?_
      rwa [Int64.toNatClampNeg, Int.toNat_of_nonneg natural]
    · rfl
  · rfl

variable {program other : Program}

/-- The operand of a push is printed `Alike`. -/
theorem literalText_arranged {met : List ℕ} {datum : Datum ℕ} {printed otherPrinted : Printed}
    (known : ∀ beyond, datum.kind ≠ .unknown beyond)
    (linked : datum.kind = .object → ∃ index declaration, datum.object = some index ∧
      program.items.toList[index]? = some declaration ∧
      other.items.toList[numberOf program.items.toList met index]? = some declaration)
    (alike : Alike program.items.toList met printed otherPrinted) :
    ∃ after otherAfter text, literalText program.snapshot printed datum = .ok (after, text) ∧
      literalText other.snapshot otherPrinted
        (arrangedLiteral program.items.toList met datum) = .ok (otherAfter, text) ∧
      Alike program.items.toList
        ((if datum.kind = .object then datum.object else none).elim met
          (metWith program.items.toList met)) after otherAfter := by
  by_cases isKind : datum.kind = .object
  · obtain ⟨index, declaration, isObject, found, otherFound⟩ := linked isKind
    obtain ⟨after, otherAfter, text, here, there, grown⟩ := functionText_numberOf alike found
    have item : (program.snapshot.item? datum).bind Embedded.declaration? = some declaration := by
      rw [declaration?_item?, isObject]
      exact found
    have otherItem : (other.snapshot.item?
        (.ofObject (some (numberOf program.items.toList met index)))).bind
          Embedded.declaration? = some declaration := by
      rw [declaration?_item?]
      exact otherFound
    have arranged : arrangedLiteral program.items.toList met datum =
        .ofObject (some (numberOf program.items.toList met index)) := by
      unfold arrangedLiteral
      rw [isKind, isObject]
      rfl
    refine ⟨after, otherAfter, Text.ofString "func " ++ text, ?_, ?_, ?_⟩
    · unfold literalText
      rw [isKind, isObject, item]
      dsimp only
      rw [here]
      rfl
    · rw [arranged]
      unfold literalText
      rw [otherItem]
      dsimp only [Datum.ofObject]
      rw [there]
      rfl
    · rw [if_pos isKind, isObject]
      exact grown
  · obtain ⟨text, here, there⟩ : ∃ text,
        literalText program.snapshot printed datum = .ok (printed, text) ∧
        literalText other.snapshot otherPrinted
          (arrangedLiteral program.items.toList met datum) = .ok (otherPrinted, text) := by
      unfold literalText arrangedLiteral
      cases kind : datum.kind with
      | object => exact absurd kind isKind
      | unknown beyond => exact absurd kind (known beyond)
      | null => exact ⟨_, rfl, rfl⟩
      | number => exact ⟨_, rfl, rfl⟩
      | text | name => exact ⟨_, rfl, rfl⟩
      | bool => exact ⟨_, rfl, rfl⟩
    rw [if_neg isKind]
    exact ⟨printed, otherPrinted, text, here, there, alike⟩

/-- An instruction is printed `Alike` in a program that is `Listable`. -/
theorem instructionText_arranged {met : List ℕ} (pc : ℕ) {instruction : Instruction ℕ}
    {printed otherPrinted : Printed} (listable : program.Listable)
    (member : instruction ∈ program.code.toList)
    (placed : ∀ index, instruction.pushed? = some index →
      other.items.toList[numberOf program.items.toList met index]? = program.items.toList[index]?)
    (size : other.snapshot.size = program.snapshot.size)
    (alike : Alike program.items.toList met printed otherPrinted) :
    ∃ after otherAfter text,
      instructionText program.snapshot printed pc instruction = .ok (after, text) ∧
      instructionText other.snapshot otherPrinted pc
        (instruction.arranged program.items.toList met) = .ok (otherAfter, text) ∧
      Alike program.items.toList (metBehind program.items.toList met instruction) after
        otherAfter := by
  have still (apart : instruction.opcode.operandClass ≠ .literal) :
      metBehind program.items.toList met instruction = met := by
    unfold metBehind Instruction.pushed?
    rw [if_neg (mt Opcode.operandClass_eq_literal.mpr apart)]
    rfl
  unfold instructionText Instruction.arranged arrangedDatum
  dsimp only
  cases isClass : instruction.opcode.operandClass with
  | none =>
    rw [still (by rw [isClass]; decide)]
    exact ⟨printed, otherPrinted, _, rfl, rfl, alike⟩
  | name =>
    rw [still (by rw [isClass]; decide)]
    refine ⟨printed, otherPrinted, _, rfl, ?_, alike⟩
    unfold nameText
    by_cases name : instruction.datum.kind = .name
    · rw [if_pos name]
      simp [Datum.ofName, name]
      rfl
    · rw [if_neg name]
      simp [Datum.ofText, name]
      rfl
  | count =>
    rw [still (by rw [isClass]; decide)]
    refine ⟨printed, otherPrinted, _, rfl, ?_, alike⟩
    dsimp only [Datum.ofNumber]
    rw [write_counted]
    rfl
  | jump =>
    rw [still (by rw [isClass]; decide), size]
    by_cases inside : labelled program.snapshot.size (ProgramOf.jumpTarget pc instruction) = true
    · rw [if_pos inside]
      exact ⟨printed, otherPrinted, _, rfl, if_pos inside, alike⟩
    · rw [if_neg inside]
      exact ⟨printed, otherPrinted, _, rfl, if_neg inside, alike⟩
  | literal =>
    have push := Opcode.operandClass_eq_literal.mp isClass
    have linked : instruction.datum.kind = .object → ∃ index declaration,
        instruction.datum.object = some index ∧
        program.items.toList[index]? = some declaration ∧
        other.items.toList[numberOf program.items.toList met index]? = some declaration := by
      intro object
      obtain ⟨index, declaration, isObject, found⟩ := listable.linked instruction member object
      have pushed := Instruction.pushed?_eq_some.mpr ⟨push, object, isObject⟩
      exact ⟨index, declaration, isObject, found, (placed index pushed).trans found⟩
    obtain ⟨after, otherAfter, text, here, there, grown⟩ :=
      literalText_arranged (listable.known instruction member push) linked alike
    refine ⟨after, otherAfter, instruction.opcode.name ++ 32 :: text, ?_, ?_, ?_⟩
    · rw [here]
      rfl
    · rw [there]
      rfl
    · unfold metBehind Instruction.pushed?
      rw [if_pos push]
      exact grown

/-! ### How programs are printed -/

theorem code_arranged (program : Program) :
    program.arranged.code.toList = arrangedFrom program.items.toList [] program.code.toList := rfl

theorem items_arranged (program : Program) :
    program.arranged.items.toList = (metFrom program.items.toList [] program.code.toList).map
      fun index => program.items.toList[index]?.getD {} := rfl

theorem size_arranged (program : Program) :
    program.arranged.snapshot.size = program.snapshot.size := by
  have length : program.arranged.code.size = program.code.size := length_arrangedFrom [] _
  exact congrArg Int64.ofNat length

/-- The functions that are spelt out up to an instruction are the first of all. -/
theorem exists_metFrom_split {before after : List (Instruction ℕ)} {instruction : Instruction ℕ}
    (split : program.code.toList = before ++ instruction :: after) :
    ∃ more, metFrom program.items.toList [] program.code.toList =
      metBehind program.items.toList (metFrom program.items.toList [] before) instruction ++
        more := by
  rw [split, metFrom_append]
  exact exists_metFrom _ _ after

/-- The entry that an instruction uses is that of the function that it pushes. -/
theorem entries_eq (items : List Declaration) (instruction : Instruction ℕ) :
    (if instruction.opcode = .push ∧ instruction.datum.kind = .object then
        (instruction.datum.object.bind fun index => items[index]?.map Declaration.entry).toList
      else []) =
      (instruction.pushed?.bind fun index => items[index]?.map Declaration.entry).toList := by
  unfold Instruction.pushed? Instruction.function?
  by_cases push : instruction.opcode = .push <;>
  by_cases object : instruction.datum.kind = .object <;> simp [push, object]

section Programs

variable (listable : program.Listable)

include listable

theorem exists_of_pushed? {instruction : Instruction ℕ} (member : instruction ∈ program.code.toList)
    {index : ℕ} (pushed : instruction.pushed? = some index) :
    ∃ declaration, program.items.toList[index]? = some declaration := by
  obtain ⟨-, object, isObject⟩ := Instruction.pushed?_eq_some.mp pushed
  obtain ⟨other, declaration, isOther, found⟩ := listable.linked instruction member object
  cases isObject.symm.trans isOther
  exact ⟨declaration, found⟩

/-- The arranged program has a function in the place that it is numbered with. -/
theorem placed_arranged {before after : List (Instruction ℕ)} {instruction : Instruction ℕ}
    (split : program.code.toList = before ++ instruction :: after) {index : ℕ}
    (pushed : instruction.pushed? = some index) :
    program.arranged.items.toList[numberOf program.items.toList
      (metFrom program.items.toList [] before) index]? = program.items.toList[index]? := by
  obtain ⟨declaration, found⟩ := exists_of_pushed? listable (by simp [split]) pushed
  obtain ⟨more, isMore⟩ := exists_metFrom_split split
  have here := getElem?_numberOf program.items.toList
    (metFrom program.items.toList [] before) index
  have behind :
      metBehind program.items.toList (metFrom program.items.toList [] before) instruction =
        metWith program.items.toList (metFrom program.items.toList [] before) index := by
    rw [metBehind, pushed]
    rfl
  rw [items_arranged, List.getElem?_map, isMore, behind,
    List.getElem?_append_left (List.getElem?_eq_some_iff.mp here).1, here, found, Option.map_some,
    found]
  rfl

/-- The lines of instructions are those of the arranged ones. -/
theorem instructionLines_arranged (labels : List Int64) {before rest : List (Instruction ℕ)}
    (split : program.code.toList = before ++ rest) {printed otherPrinted : Printed}
    (alike : Alike program.items.toList (metFrom program.items.toList [] before) printed
      otherPrinted) :
    ∃ lines, instructionLines program.snapshot labels printed (numberedFrom before.length rest) =
        .ok lines ∧
      instructionLines program.arranged.snapshot labels otherPrinted (numberedFrom before.length
        (arrangedFrom program.items.toList (metFrom program.items.toList [] before) rest)) =
          .ok lines := by
  induction rest generalizing before printed otherPrinted with
  | nil => exact ⟨[], rfl, rfl⟩
  | cons instruction rest ih =>
    obtain ⟨after, otherAfter, text, here, there, grown⟩ := instructionText_arranged before.length
      listable (by simp [split]) (fun index => placed_arranged listable split)
      (size_arranged program) alike
    rw [← metFrom_snoc] at grown
    obtain ⟨lines, isLines, otherLines⟩ := ih (by simp [split]) grown
    rw [List.length_append, List.length_singleton] at isLines otherLines
    rw [metFrom_snoc] at otherLines
    refine ⟨(labelLine labels (Int64.ofNat before.length) ++ 9 :: text ++ Text.ofString "\n") ::
      lines, ?_, ?_⟩
    · rw [numberedFrom_cons, instructionLines, here]
      show (instructionLines program.snapshot labels after _ >>= _) = _
      rw [isLines]
      rfl
    · rw [arrangedFrom, numberedFrom_cons, instructionLines, there]
      show (instructionLines program.arranged.snapshot labels otherAfter _ >>= _) = _
      rw [otherLines]
      rfl

/-- An instruction that is `Instruction.arranged` uses the same addresses. -/
theorem instructionTargets_arranged (pc : ℕ) {before after : List (Instruction ℕ)}
    {instruction : Instruction ℕ} (split : program.code.toList = before ++ instruction :: after) :
    instructionTargets program.arranged.snapshot pc
        (instruction.arranged program.items.toList (metFrom program.items.toList [] before)) =
      instructionTargets program.snapshot pc instruction := by
  have place (index : ℕ) (pushed : instruction.pushed? = some index) :=
    placed_arranged listable split pushed
  generalize metFrom program.items.toList [] before = met at place
  rw [instructionTargets_eq, instructionTargets_eq, size_arranged]
  refine congrArg₂ (· ++ ·) ?_ ?_
  · cases jumps : instruction.opcode.isJump with
    | false =>
      have still : (instruction.arranged program.items.toList met).opcode.isJump = false := jumps
      rw [still, Bool.false_and, Bool.false_and, if_neg Bool.false_ne_true,
        if_neg Bool.false_ne_true]
    | true =>
      have same : ProgramOf.jumpTarget pc (instruction.arranged program.items.toList met) =
          ProgramOf.jumpTarget pc instruction := by
        unfold ProgramOf.jumpTarget Instruction.arranged
        rw [if_pos (Opcode.operandClass_eq_jump.mpr jumps)]
      rw [same, show (instruction.arranged _ met).opcode.isJump = true from jumps]
  · rw [entries_eq, entries_eq, pushed?_arranged, Option.bind_map]
    cases pushed : instruction.pushed? with
    | none => rfl
    | some index =>
      exact congrArg (fun found => (Option.map Declaration.entry found).toList)
        (place index pushed)

/-- The arranged program uses the same addresses. -/
theorem flatMap_instructionTargets_arranged {before rest : List (Instruction ℕ)}
    (split : program.code.toList = before ++ rest) :
    (numberedFrom before.length (arrangedFrom program.items.toList
        (metFrom program.items.toList [] before) rest)).flatMap
          (fun place => instructionTargets program.arranged.snapshot place.1 place.2) =
      (numberedFrom before.length rest).flatMap
        fun place => instructionTargets program.snapshot place.1 place.2 := by
  induction rest generalizing before with
  | nil => rw [arrangedFrom, numberedFrom_nil, List.flatMap_nil, List.flatMap_nil]
  | cons instruction rest ih =>
    have again : program.code.toList = (before ++ [instruction]) ++ rest := by simp [split]
    have later := ih again
    rw [List.length_append, List.length_singleton, metFrom_snoc] at later
    rw [arrangedFrom, numberedFrom_cons, numberedFrom_cons, List.flatMap_cons, List.flatMap_cons,
      later, instructionTargets_arranged listable before.length split]

theorem targets_arranged : targets program.arranged.snapshot = targets program.snapshot := by
  have whole := flatMap_instructionTargets_arranged listable
    (show program.code.toList = [] ++ program.code.toList from rfl)
  unfold targets
  rw [numbered_snapshot, numbered_snapshot, size_arranged, code_arranged]
  refine congrArg (· ++ _ ++ _) whole

/-- The listing of a program is that of `arranged`. -/
theorem listing_arranged : program.arranged.snapshot.listing = program.snapshot.listing := by
  obtain ⟨lines, isLines, otherLines⟩ := instructionLines_arranged listable
    (targets program.snapshot) (show program.code.toList = [] ++ program.code.toList from rfl)
    (alike_empty program.items.toList)
  unfold ProgramOf.listing
  rw [targets_arranged listable, numbered_snapshot, numbered_snapshot, size_arranged]
  rw [List.length_nil] at isLines otherLines
  rw [code_arranged]
  dsimp only
  rw [isLines]
  show (instructionLines program.arranged.snapshot (targets program.snapshot) {} (numberedFrom 0
    (arrangedFrom program.items.toList (metFrom program.items.toList [] []) _)) >>= _) = _
  rw [otherLines]
  rfl

/-! ### The arranged program is one that has rows -/

omit listable in
theorem exists_of_mem_arrangedFrom {items : List Declaration} {met : List ℕ}
    {code : List (Instruction ℕ)} {arranged : Instruction ℕ}
    (member : arranged ∈ arrangedFrom items met code) :
    ∃ instruction ∈ code, ∃ before, arranged = instruction.arranged items before := by
  induction code generalizing met with
  | nil => cases member
  | cons instruction rest ih =>
    rcases List.mem_cons.mp member with rfl | later
    · exact ⟨instruction, List.mem_cons_self, met, rfl⟩
    · obtain ⟨other, among, before, isArranged⟩ := ih later
      exact ⟨other, List.mem_cons_of_mem _ among, before, isArranged⟩

/-- An arranged operand is one that a row shows. -/
theorem listed_arrangedDatum {instruction : Instruction ℕ}
    (member : instruction ∈ program.code.toList) (met : List ℕ) :
    (arrangedDatum program.items.toList met instruction).Listed
      instruction.opcode.operandClass := by
  unfold arrangedDatum
  cases isClass : instruction.opcode.operandClass with
  | none => rfl
  | jump => rfl
  | count => exact ⟨_, rfl⟩
  | name =>
    refine ⟨instruction.datum.text, ?_⟩
    dsimp only
    split
    · exact .inl rfl
    · exact .inr rfl
  | literal =>
    show Datum.Literal (arrangedLiteral program.items.toList met instruction.datum)
    unfold arrangedLiteral
    cases kind : instruction.datum.kind with
    | null => exact .null
    | unknown beyond => exact .null
    | number => exact .number _
    | text => exact .text _
    | name => exact .text _
    | bool => exact .bool _
    | object =>
      obtain ⟨index, declaration, isObject, -⟩ := listable.linked instruction member kind
      rw [isObject]
      exact .object _

/-- The functions of the arranged program are pushed in the order of their numbers: they are
`Ordered`. -/
theorem ordered_arrangedFrom {before rest : List (Instruction ℕ)}
    (split : program.code.toList = before ++ rest) :
    Ordered program.arranged.items.toList
      (functionsUsed (arrangedFrom program.items.toList [] before)) := by
  induction before using List.reverseRecOn generalizing rest with
  | nil => exact fun before use after split => by simp [arrangedFrom, functionsUsed] at split
  | append_singleton before instruction ih =>
    rw [List.append_assoc, List.singleton_append] at split
    have earlier := ih split
    rw [arrangedFrom_append, arrangedFrom, arrangedFrom, functionsUsed_append, functionsUsed_cons,
      function?_arranged]
    cases pushed : instruction.pushed? with
    | none => exact (List.append_nil _).symm ▸ earlier
    | some index =>
      refine earlier.append_singleton ?_
      rw [reach_arrangedFrom]
      have place := placed_arranged listable split pushed
      by_cases spelt : SpeltOut program.items.toList (metFrom program.items.toList [] before) index
      · exact .inl (numberOf_of_speltOut spelt)
      · obtain ⟨met, named⟩ := not_or.mp spelt
        have number : numberOf program.items.toList (metFrom program.items.toList [] before) index =
            (metFrom program.items.toList [] before).idxOf index := if_neg spelt
        obtain ⟨declaration, found⟩ := exists_of_pushed? listable (by simp [split]) pushed
        rw [found] at place
        refine .inr ⟨?_, declaration, place, fun none => named ?_⟩
        · rw [number]
          exact List.idxOf_lt_length_of_mem (not_not.mp met)
        · rw [Unnamed, found, ← none]
          rfl

theorem listed_arranged : program.arranged.Listed where
  opcodes := by
    intro arranged member
    obtain ⟨instruction, among, before, rfl⟩ := exists_of_mem_arrangedFrom member
    exact listable.opcodes instruction among
  data := by
    intro arranged member
    obtain ⟨instruction, among, before, rfl⟩ := exists_of_mem_arrangedFrom member
    exact listed_arrangedDatum listable among before
  ordered := ordered_arrangedFrom listable (List.append_nil _).symm
  all := by
    rw [code_arranged, reach_arrangedFrom, items_arranged, List.length_map]

end Programs

end Assembly

end ScriptEngine
