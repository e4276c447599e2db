/-
This file proves that listings lose nothing. Whatever a source denotes, as long as its counts are
ones that a machine takes, has a listing that assembles again; and what it assembles to restates the
program: the same instructions between the same bounds, with functions that correspond one to one,
so that two instructions share a function in the one just if they do in the other. Only a name that
is no identifier is lost, a function being listed under another and an operand as a text. The
listing of what was assembled again is the listing that it came from.
-/

import Mathlib
import ScriptEngine.Proofs.Assembly.Extent
import ScriptEngine.Proofs.Assembly.Linking

namespace ScriptEngine

open Assembly (isIdentifier relistedFrom)

/-! ### What a listing keeps -/

/-- An operand over again; a name that is no identifier may have become a text. -/
def Datum.Restates (datum original : Datum ℕ) : Prop :=
  datum = original ∨
    original.kind = .name ∧ isIdentifier original.text = false ∧ datum = .ofText original.text

/-- An instruction over again. -/
structure Instruction.Restates (instruction original : Instruction ℕ) : Prop where
  opcode : instruction.opcode = original.opcode
  jump : instruction.jump = original.jump
  datum : instruction.datum.Restates original.datum

/-- A function over again, apart from its name. -/
structure Declaration.Restates (declaration original : Declaration) : Prop where
  params : declaration.params = original.params
  entry : declaration.entry = original.entry
  constructs : declaration.constructs = original.constructs

/-- A program over again: its instructions and functions are so, by `Instruction.Restates` and
`Declaration.Restates`, and the functions have the numbers that they had. -/
structure Program.Restates (program original : Program) : Prop where
  start : program.start = original.start
  stop : program.stop = original.stop
  code : List.Forall₂ Instruction.Restates program.code.toList original.code.toList
  functions : List.Forall₂ Declaration.Restates program.items.toList original.items.toList
  /-- Two instructions share a function just if they did. -/
  sharing : ∀ (first second : ℕ) (instruction other again otherAgain : Instruction ℕ),
    original.code[first]? = some instruction → original.code[second]? = some other →
    program.code[first]? = some again → program.code[second]? = some otherAgain →
    instruction.datum.kind = .object → other.datum.kind = .object →
    (again.datum.object = otherAgain.datum.object ↔
      instruction.datum.object = other.datum.object)
  /-- There is no function that no instruction refers to. -/
  used : ∀ index < program.items.size, ∃ instruction ∈ program.code,
    instruction.datum.kind = .object ∧ instruction.datum.object = some index
  /-- Names that are identifiers are kept. -/
  names : (∀ declaration ∈ original.items.toList,
      declaration.name = [] ∨ isIdentifier declaration.name = true) →
    program.items.toList.map Declaration.name = original.items.toList.map Declaration.name

theorem Datum.restates_relisted (datum : Datum ℕ) : datum.relisted.Restates datum := by
  unfold relisted Restates
  split
  · case isTrue name => exact .inr ⟨name.1, name.2, rfl⟩
  · exact .inl rfl

theorem Assembly.restates_relistedFrom (used : List Text) (declarations : List Declaration) :
    List.Forall₂ Declaration.Restates (relistedFrom used declarations) declarations := by
  induction declarations generalizing used with
  | nil => exact .nil
  | cons declaration rest ih =>
    rw [relistedFrom]
    split
    · exact .cons ⟨rfl, rfl, rfl⟩ (ih _)
    · exact .cons ⟨rfl, rfl, rfl⟩ (ih _)

namespace Program

variable {program : Program}

theorem exists_use (assembled : program.Assembled) {index : ℕ}
    (below : index < program.items.size) :
    ∃ instruction ∈ program.code, instruction.datum.kind = .object ∧
      instruction.datum.object = some index := by
  rw [← Array.length_toList, ← assembled.declared.all] at below
  obtain ⟨instruction, member, refers⟩ :=
    List.mem_filterMap.mp (Assembly.mem_of_lt_reach assembled.declared.ordered below)
  have object := Instruction.kind_of_function? refers
  rw [Instruction.function?, if_pos object] at refers
  exact ⟨instruction, Array.mem_toList_iff.mp member, object, refers⟩

theorem restates_relisted (assembled : program.Assembled) : program.relisted.Restates program where
  start := rfl
  stop := rfl
  code := by
    rw [relisted, Array.toList_map, List.forall₂_map_left_iff, List.forall₂_same]
    exact fun instruction _ => ⟨rfl, rfl, instruction.datum.restates_relisted⟩
  functions := Assembly.restates_relistedFrom [] _
  sharing := by
    intro first second instruction other again otherAgain there otherThere isAgain isOtherAgain
      object otherObject
    rw [relisted, Array.getElem?_map, there] at isAgain
    rw [relisted, Array.getElem?_map, otherThere] at isOtherAgain
    cases isAgain
    cases isOtherAgain
    rw [Instruction.relisted, Instruction.relisted, instruction.datum.object_relisted.2 object,
      other.datum.object_relisted.2 otherObject]
  used := fun index below => exists_use assembled.relisted below
  names := by
    intro plain
    have same : relistedFrom [] program.items.toList = program.items.toList :=
      Assembly.relistedFrom_eq
        (fun declaration member => (plain declaration member).imp_right (⟨·, List.not_mem_nil⟩))
        assembled.declared.distinct
    show (relistedFrom [] program.items.toList).map _ = _
    rw [same]

theorem Counts.relisted (counts : program.Counts) : program.relisted.Counts := by
  intro instruction member isCount
  rw [Program.relisted, Array.toList_map] at member
  obtain ⟨before, among, rfl⟩ := List.mem_map.mp member
  obtain ⟨count, isDatum, isNumber⟩ := counts before among isCount
  have same : before.datum.relisted = before.datum :=
    Datum.relisted_of_ne (by rw [isDatum]; rintro ⟨⟩)
  exact ⟨count, same.trans isDatum, isNumber⟩

end Program

/-! ### Assembling a listing -/

namespace Assembly

/-- A program that was assembled, and that is `Program.Counted`, has a listing, which assembles to a
program that `Program.Restates` it and has the same listing. The length of a source is a 64-bit
integer, so that addresses are as well. -/
theorem assemble_listing {source : Text} {program : Program}
    (fits : source.length < 2 ^ 63) (assembles : assemble source = .ok program)
    (counted : program.Counted) :
    ∃ text again, program.snapshot.listing = .ok text ∧ assemble text = .ok again ∧
      again.Restates program ∧ again.snapshot.listing = .ok text := by
  have assembled := assembled_of_assemble assembles
  have again := assembled.relisted
  have plain := program.plain_relisted
  have small : program.relisted.code.size < 2 ^ 63 := by
    rw [Program.relisted, Array.size_map]
    exact (size_le_of_assemble assembles).trans_lt fits
  refine ⟨_, program.relisted, listing_eq assembled.listed,
    assemble_rows again plain (counted.counts assembled).relisted small,
    Program.restates_relisted assembled, ?_⟩
  rw [listing_eq again.listed, plain.relisted_eq again]

/-- Functions with a name that is no identifier, with the name that it is listed under, and without
one; operands that are names, only look like names, or are numbers; and jumps within the program
and out of it. -/
def namesSource : Text :=
  [".entry main",
    ".end done",
    "f: pushthis",
    "ret",
    "main: push func .f(a, b) @f array ; listed as fn",
    "push func () @main",
    "push func fn() @f ; listed as fn_2",
    "push func .f",
    "fetch +x ; listed as a text",
    "fetch größe",
    "fetch \"a b\"",
    "jmpz @done",
    "jmp 9223372036854775807",
    "push -2.5",
    "push NaN",
    "done: call 2"].flatMap fun line => Text.ofString line ++ Text.ofString "\n"

/-- What the source denotes. -/
def namesProgram : Program where
  code := #[
    { opcode := .pushthis },
    { opcode := .ret },
    { opcode := .push, datum := .ofObject (some 0) },
    { opcode := .push, datum := .ofObject (some 1) },
    { opcode := .push, datum := .ofObject (some 2) },
    { opcode := .push, datum := .ofObject (some 0) },
    { opcode := .fetch, datum := .ofName "+x" },
    { opcode := .fetch, datum := .ofName "größe" },
    { opcode := .fetch, datum := .ofText "a b" },
    { opcode := .jmpz, jump := 3 },
    { opcode := .jmp, jump := Int64.maxValue },
    { opcode := .push, datum := .ofNumber (Number.ofRatio true 5 2) },
    { opcode := .push, datum := .ofNumber Number.notANumber },
    { opcode := .call, datum := .ofNumber (Number.ofNat 2) }]
  items := #[
    { name := ".f", params := ["a", "b"], entry := 0, constructs := .array },
    { entry := 2 },
    { name := "fn", entry := 0 }]
  start := 2
  stop := 13

theorem assemble_listing_namesSource : assemble namesSource = .ok namesProgram ∧
    ∃ text again, namesProgram.snapshot.listing = .ok text ∧ assemble text = .ok again ∧
      again.Restates namesProgram ∧ again.snapshot.listing = .ok text := by
  have assembles : assemble namesSource = .ok namesProgram := by decide +kernel
  have counted : namesProgram.Counted := by
    unfold Program.Counted
    decide +kernel
  exact ⟨assembles, assemble_listing (by decide +kernel) assembles counted⟩

end Assembly

end ScriptEngine
