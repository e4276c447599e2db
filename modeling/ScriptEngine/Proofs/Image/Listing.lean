/-
This file proves which images have listings, and which of the listings are sources, whatever lawful
codec the images are read with. Reading an image checks its bounds, its opcodes and the numbers of
its functions, but neither the kinds of operands nor counts, nor what a function constructs and
where it is entered. A listing is there unless an operand of a push is of an unknown kind. It
assembles just if, besides, counts are counts and the functions that are pushed construct something
known and are entered within the program; and then what it assembles to has the opcodes, the jumps
and the bounds of what was read.
-/

import Mathlib
import ScriptEngine.Proofs.Assembly.Arranging
import ScriptEngine.Proofs.Assembly.Linking
import ScriptEngine.Proofs.Assembly.Naming
import ScriptEngine.Proofs.Assembly.Recognition
import ScriptEngine.Proofs.Image.Normalizing

namespace ScriptEngine

/-- An instruction of a program pushes a function. -/
def Program.Pushes (program : Program) (declaration : Declaration) : Prop :=
  ∃ instruction ∈ program.code.toList, ∃ index, instruction.pushed? = some index ∧
    program.items.toList[index]? = some declaration

/-- A program that can be written down in assembly: it pushes what is known, `Program.PushesKnown`,
its counts are counts, `IsCount`, and the functions that it pushes construct something known and are
entered within it. -/
structure Program.Transcribable (program : Program) : Prop where
  known : program.PushesKnown
  counts : ∀ instruction ∈ program.code.toList, instruction.opcode.operandClass = .count →
    Number.IsCount instruction.datum.number
  constructs : ∀ declaration, program.Pushes declaration →
    declaration.constructs ∈ ConstructKind.known
  entries : ∀ declaration, program.Pushes declaration → ∃ address ≤ program.code.size,
    declaration.entry = Int64.ofNat address

/-- An instruction does the same and jumps to the same address. -/
structure Instruction.Retraces (again instruction : Instruction ℕ) : Prop where
  opcode : again.opcode = instruction.opcode
  target : instruction.opcode.isJump = true → ∀ pc,
    ProgramOf.jumpTarget pc again = ProgramOf.jumpTarget pc instruction

/-- A program has as many instructions, which do the same and jump to the same addresses, within
the same bounds. -/
structure Program.Retraces (again program : Program) : Prop where
  code : List.Forall₂ Instruction.Retraces again.code.toList program.code.toList
  start : again.start = program.start
  stop : again.stop = program.stop

namespace Assembly

variable {program : Program}

/-! ### Programs with a listing -/

theorem pushesKnown_of_listing {text : Text} (isListing : program.snapshot.listing = .ok text) :
    program.PushesKnown :=
  (ProgramOf.exists_listing_iff program.snapshot).mp ⟨text, isListing⟩

theorem listing_eq_arranged (listable : program.Listable) :
    program.snapshot.listing = .ok ((rows program.arranged.relisted).flatMap Row.text) := by
  rw [← listing_arranged listable, listing_eq (listed_arranged listable)]

/-! ### What is arranged and listed -/

theorem exists_push_of_mem_metFrom {items : List Declaration} {code : List (Instruction ℕ)}
    {index : ℕ} (member : index ∈ metFrom items [] code) :
    ∃ instruction ∈ code, instruction.pushed? = some index := by
  induction code using List.reverseRecOn with
  | nil => cases member
  | append_singleton before instruction ih =>
    have earlier (member : index ∈ metFrom items [] before) :
        ∃ other ∈ before ++ [instruction], other.pushed? = some index :=
      (ih member).imp fun _ found => ⟨List.mem_append_left _ found.1, found.2⟩
    rw [metFrom_snoc, metBehind] at member
    cases pushed : instruction.pushed? with
    | none =>
      rw [pushed] at member
      exact earlier member
    | some use =>
      rw [pushed, Option.elim_some, metWith] at member
      split at member
      · rcases List.mem_append.mp member with member | last
        · exact earlier member
        · rw [List.mem_singleton.mp last]
          exact ⟨instruction, by simp, pushed⟩
      · exact earlier member

/-- The arranged program has the functions that the program `Pushes`, and no other ones. -/
theorem mem_items_arranged (listable : program.Listable) {declaration : Declaration} :
    declaration ∈ program.arranged.items.toList ↔ program.Pushes declaration := by
  constructor
  · intro member
    rw [items_arranged] at member
    obtain ⟨index, met, rfl⟩ := List.mem_map.mp member
    obtain ⟨instruction, among, pushed⟩ := exists_push_of_mem_metFrom met
    obtain ⟨declaration, found⟩ := exists_of_pushed? listable among pushed
    rw [found]
    exact ⟨instruction, among, index, pushed, found⟩
  · rintro ⟨instruction, among, index, pushed, found⟩
    obtain ⟨before, after, split⟩ := List.append_of_mem among
    exact List.mem_of_getElem? ((placed_arranged listable split pushed).trans found)

theorem exists_mem_code_arranged {instruction : Instruction ℕ}
    (member : instruction ∈ program.code.toList) :
    ∃ met, instruction.arranged program.items.toList met ∈ program.arranged.code.toList := by
  obtain ⟨before, after, split⟩ := List.append_of_mem member
  refine ⟨metFrom program.items.toList [] before, ?_⟩
  rw [code_arranged, split, arrangedFrom_append]
  exact List.mem_append_right _ List.mem_cons_self

/-- An instruction of a program that was `arranged` and `relisted` comes from one of the program. -/
theorem exists_of_mem_relisted_arranged {instruction : Instruction ℕ}
    (member : instruction ∈ program.arranged.relisted.code.toList) :
    ∃ original ∈ program.code.toList, ∃ met,
      instruction = (original.arranged program.items.toList met).relisted := by
  rw [Program.relisted, Array.toList_map] at member
  obtain ⟨arranged, among, rfl⟩ := List.mem_map.mp member
  obtain ⟨original, there, met, rfl⟩ := exists_of_mem_arrangedFrom among
  exact ⟨original, there, met, rfl⟩

theorem datum_relisted_arranged {instruction : Instruction ℕ}
    (isCount : instruction.opcode.operandClass = .count) (items : List Declaration)
    (met : List ℕ) : (instruction.arranged items met).relisted.datum =
      .ofNumber (Number.counted instruction.datum.number) := by
  have datum : (instruction.arranged items met).datum =
      .ofNumber (Number.counted instruction.datum.number) := by
    unfold Instruction.arranged arrangedDatum
    rw [isCount]
  rw [Instruction.relisted, datum, Datum.relisted_of_ne (by rintro ⟨⟩)]

theorem exists_counted {number : Float} (isCount : Number.IsCount number) :
    ∃ count, Number.counted number = Number.ofNat count ∧ Number.Counts count := by
  obtain ⟨count, read, natural⟩ := isCount
  have counted : Number.counted number = Number.ofNat count.toNatClampNeg := by
    unfold Number.counted
    rw [read]
    exact if_pos natural
  refine ⟨count.toNatClampNeg, counted, ?_, Int64.toNatClampNeg_lt count⟩
  rw [← counted, write_counted, read, Int64.ofNat_toNatClampNeg count natural]

theorem isCount_counted {number : Float} :
    Number.IsCount (Number.counted number) ↔ Number.IsCount number := by
  unfold Number.IsCount
  rw [write_counted]

theorem size_relisted_arranged (program : Program) :
    program.arranged.relisted.code.size = program.code.size := by
  rw [Program.relisted, Array.size_map]
  exact length_arrangedFrom [] _

/-- What the listing of a program has to say is `Spellable` just if the program is `Transcribable`.
-/
theorem transcribable_of_spellable (listable : program.Listable)
    (spellable : program.arranged.relisted.Spellable) : program.Transcribable := by
  have declared {declaration : Declaration} (pushes : program.Pushes declaration) :
      ∃ name, { declaration with name } ∈ program.arranged.relisted.items.toList := by
    obtain ⟨index, found⟩ :=
      List.getElem?_of_mem ((mem_items_arranged listable).mpr pushes)
    obtain ⟨name, there, -⟩ := getElem?_relistedFrom [] found
    exact ⟨name, List.mem_of_getElem? there⟩
  refine ⟨listable.known, fun instruction member isCount => ?_, fun declaration pushes => ?_,
    fun declaration pushes => ?_⟩
  · obtain ⟨met, there⟩ := exists_mem_code_arranged member
    have listed : (instruction.arranged program.items.toList met).relisted ∈
        program.arranged.relisted.code.toList := by
      rw [Program.relisted, Array.toList_map]
      exact List.mem_map_of_mem there
    have counts := spellable.counts _ listed isCount
    rw [datum_relisted_arranged isCount] at counts
    exact isCount_counted.mp counts
  · obtain ⟨name, there⟩ := declared pushes
    have known := spellable.constructs _ there
    exact known
  · obtain ⟨name, there⟩ := declared pushes
    obtain ⟨address, bound, isEntry⟩ := spellable.entries _ there
    exact ⟨address, size_relisted_arranged program ▸ bound, isEntry⟩

theorem retraces_arranged (program : Program) : program.arranged.relisted.Retraces program where
  code := by
    have arranged (met : List ℕ) (code : List (Instruction ℕ)) : List.Forall₂ Instruction.Retraces
        ((arrangedFrom program.items.toList met code).map Instruction.relisted) code := by
      induction code generalizing met with
      | nil => exact .nil
      | cons instruction rest ih =>
        refine .cons ⟨rfl, fun jumps pc => ?_⟩ (ih _)
        have jump : (instruction.arranged program.items.toList met).jump = instruction.jump :=
          if_pos (Opcode.operandClass_eq_jump.mpr jumps)
        unfold ProgramOf.jumpTarget
        rw [Instruction.relisted, jump]
    rw [Program.relisted, Array.toList_map]
    exact arranged [] program.code.toList
  start := rfl
  stop := rfl

/-- The program `Pushes` each function that it has once it was `arranged` and `relisted`, apart from
its name. -/
theorem exists_pushes_of_mem (listable : program.Listable) {declaration : Declaration}
    (member : declaration ∈ program.arranged.relisted.items.toList) :
    ∃ original name, program.Pushes original ∧ declaration = { original with name } := by
  obtain ⟨original, among, name, rfl, -⟩ := exists_of_mem_relistedFrom member
  exact ⟨original, name, (mem_items_arranged listable).mp among, rfl⟩

theorem worded_arranged (listable : program.Listable)
    (worded : ∀ declaration, program.Pushes declaration → declaration.Worded) :
    ∀ declaration ∈ program.arranged.relisted.items.toList, declaration.Worded := by
  intro declaration member
  obtain ⟨original, name, pushes, rfl⟩ := exists_pushes_of_mem listable member
  exact worded original pushes

theorem counts_arranged (transcribable : program.Transcribable) :
    program.arranged.relisted.Counts := by
  intro instruction member isCount
  obtain ⟨original, among, met, rfl⟩ := exists_of_mem_relisted_arranged member
  have takesCount : original.opcode.operandClass = .count := isCount
  obtain ⟨count, counted, counts⟩ :=
    exists_counted (transcribable.counts original among takesCount)
  exact ⟨count, by rw [datum_relisted_arranged takesCount, counted], counts⟩

/-- A program that is `Transcribable` is one that assembly gives, `Assembled`, once it was arranged
and listed. -/
theorem assembled_arranged (listable : program.Listable) (transcribable : program.Transcribable)
    (worded : ∀ declaration, program.Pushes declaration → declaration.Worded)
    (bounds : ∃ start stop, start ≤ stop ∧ stop ≤ program.code.size ∧
      program.start = Int64.ofNat start ∧ program.stop = Int64.ofNat stop) :
    program.arranged.relisted.Assembled := by
  have listed := (listed_arranged listable).relisted
  refine ⟨fun instruction member => ⟨listed.opcodes instruction member, ?_, ?_⟩,
    ⟨fun declaration member => ⟨worded_arranged listable worded declaration member, ?_⟩,
      pairwise_relistedFrom [] _, listed.ordered, listed.all⟩, fun declaration member => ?_, ?_⟩
  · intro still
    obtain ⟨original, -, met, rfl⟩ := exists_of_mem_relisted_arranged member
    exact if_neg still
  · have operand := listed.data instruction member
    cases isClass : instruction.opcode.operandClass with
    | count =>
      obtain ⟨count, isDatum, -⟩ := counts_arranged transcribable instruction member isClass
      exact ⟨count, isDatum⟩
    | none | name | jump | literal =>
      rw [isClass] at operand
      exact operand
  · obtain ⟨original, name, pushes, rfl⟩ := exists_pushes_of_mem listable member
    exact transcribable.constructs original pushes
  · obtain ⟨original, name, pushes, rfl⟩ := exists_pushes_of_mem listable member
    rw [size_relisted_arranged]
    exact transcribable.entries original pushes
  · rw [size_relisted_arranged]
    exact bounds

end Assembly

/-! ### Images -/

theorem Opcode.mem_valid_of_isValid {opcode : Opcode} (valid : opcode.isValid = true) :
    opcode ∈ Opcode.valid := by
  cases opcode with
  | unknown beyond => cases valid
  | _ => decide

namespace Image

open Assembly (assemble)

variable {program : Program}

theorem Consistent.listable (consistent : Consistent program) (known : program.PushesKnown) :
    program.Listable where
  opcodes instruction member :=
    Opcode.mem_valid_of_isValid (consistent.valid instruction (Array.mem_toList_iff.mp member))
  linked instruction member object := by
    obtain ⟨index, below, isObject⟩ :=
      (consistent.linked instruction (Array.mem_toList_iff.mp member)).object object
    rw [← Array.length_toList] at below
    exact ⟨index, _, isObject, List.getElem?_eq_getElem below⟩
  known := known

theorem Consistent.bounds (consistent : Consistent program) :
    ∃ start stop, start ≤ stop ∧ stop ≤ program.code.size ∧
      program.start = Int64.ofNat start ∧ program.stop = Int64.ofNat stop := by
  have naturalStop := Int64.le_trans consistent.nonneg consistent.ordered
  refine ⟨program.start.toNatClampNeg, program.stop.toNatClampNeg, ?_, ?_,
    (Int64.ofNat_toNatClampNeg _ consistent.nonneg).symm,
    (Int64.ofNat_toNatClampNeg _ naturalStop).symm⟩
  · exact Int.toNat_le_toNat (Int64.le_iff_toInt_le.mp consistent.ordered)
  · exact Int.toNat_le.mpr consistent.within

/-- With a `Codec.Lawful` codec there are no more instructions than a sequence may have members. -/
theorem Codec.Lawful.size_le {codec : Codec} {limit : ℕ} {bytes : Text}
    (lawful : codec.Lawful limit) (decoded : codec.decode bytes = .ok program) :
    program.code.size ≤ limit := by
  obtain ⟨image, read, gives⟩ := exists_gives_of_decode decoded
  rw [← Array.length_toList, ← gives.code.length_eq]
  exact (lawful.legible _ _ read).code

/-- An image has a listing just if it pushes what is known, `Program.PushesKnown`. If, besides, the
parameters of the functions that are pushed are words, the listing assembles just if the program can
be written down in assembly, `Program.Transcribable`, and what it assembles to `Program.Retraces`
the instructions, jumps and bounds of the program. -/
theorem listing_of_decode {codec : Codec} {limit : ℕ} {bytes : Text}
    (lawful : codec.Lawful limit) (decoded : codec.decode bytes = .ok program) :
    ((∃ text, program.snapshot.listing = .ok text) ↔ program.PushesKnown) ∧
      ((∀ declaration, program.Pushes declaration → declaration.Worded) →
        ((∃ text again, program.snapshot.listing = .ok text ∧ assemble text = .ok again) ↔
            program.Transcribable) ∧
          ∀ text again, program.snapshot.listing = .ok text → assemble text = .ok again →
            again.Retraces program) := by
  have consistent := consistent_of_decode decoded
  have plain := program.arranged.plain_relisted
  have small : program.arranged.relisted.code.size < 2 ^ 63 := by
    rw [Assembly.size_relisted_arranged]
    exact (lawful.size_le decoded).trans_lt (lawful.small.2.trans (by decide))
  refine ⟨⟨fun ⟨text, isListing⟩ => Assembly.pushesKnown_of_listing isListing, fun known =>
    ⟨_, Assembly.listing_eq_arranged (consistent.listable known)⟩⟩, fun worded => ?_⟩
  have written (transcribable : program.Transcribable) :
      program.snapshot.listing = .ok ((Assembly.rows program.arranged.relisted).flatMap
          Assembly.Row.text) ∧
        assemble ((Assembly.rows program.arranged.relisted).flatMap Assembly.Row.text) =
          .ok program.arranged.relisted := by
    have listable := consistent.listable transcribable.known
    have assembled := Assembly.assembled_arranged listable transcribable worded
      consistent.bounds
    exact ⟨Assembly.listing_eq_arranged listable, Assembly.assemble_rows assembled plain
      (Assembly.counts_arranged transcribable) small⟩
  -- the rows say what the program is, so what they need the program has
  have transcribable {text : Text} {again : Program}
      (isListing : program.snapshot.listing = .ok text) (assembles : assemble text = .ok again) :
      program.Transcribable := by
    have listable := consistent.listable (Assembly.pushesKnown_of_listing isListing)
    rw [Assembly.listing_eq_arranged listable] at isListing
    cases isListing
    exact Assembly.transcribable_of_spellable listable (Assembly.spellable_of_assemble
      (Assembly.listed_arranged listable).relisted plain
      (Assembly.worded_arranged listable worded) assembles)
  refine ⟨⟨?_, fun can => ⟨_, _, written can⟩⟩, fun text again isListing assembles => ?_⟩
  · rintro ⟨text, again, isListing, assembles⟩
    exact transcribable isListing assembles
  · obtain ⟨there, isAgain⟩ := written (transcribable isListing assembles)
    cases isListing.symm.trans there
    cases assembles.symm.trans isAgain
    exact Assembly.retraces_arranged program

/-- An image of instructions with operands that do not suit their opcodes, and with a function that
is never pushed and could not be. -/
def unsuitedImage : Text :=
    [0xA5, 0x01, 0x01, 0x02, 0x02, 0x03, 0x06, 0x04, 0x87,
      0xA3, 0x01, 0x03, 0x03, 0x05, 0x07, 0x02, 0xA3, 0x01, 0x03, 0x03, 0x05, 0x07, 0x02,
      0xA2, 0x01, 0x18, 0x1F, 0x02, 0x01, 0xA5, 0x01, 0x01, 0x02, 0x07, 0x03, 0x01, 0x04, 0xF9,
      0x47, 0x00, 0x05, 0x63, 0x78, 0x20, 0x79,
      0xA4, 0x01, 0x18, 0x20, 0x03, 0x02, 0x04, 0xF9, 0x40, 0x00, 0x05, 0x61, 0x7A, 0xA3, 0x01,
      0x18, 0x22, 0x02, 0x38, 0x63, 0x03, 0x09, 0xA3, 0x01, 0x03, 0x03, 0x05, 0x07, 0x03,
      0x05, 0x83, 0xA3, 0x01, 0x66, 0x75, 0x6E, 0x75, 0x73, 0x65, 0x64, 0x03, 0x24, 0x04, 0x09,
      0xA4, 0x01, 0x63, 0x66, 0x20, 0x67, 0x02, 0x82, 0x61, 0x61, 0x61, 0x62, 0x03, 0x03, 0x04,
      0x01, 0xA2, 0x01, 0x60, 0x03, 0x07]

/-- The program that is read from it. -/
def unsuitedProgram : Program where
  code := #[
    { opcode := .push, datum := .ofObject (some 1) },
    { opcode := .push, datum := .ofObject (some 1) },
    { opcode := .jmp, jump := 1 },
    { opcode := .fetch, jump := 7,
       datum := { kind := .number, number := Number.ofNat 7, text := "x y" } },
    { opcode := .call, datum := { kind := .text, number := Number.ofNat 2, text := "z" } },
    { opcode := .jmpz, jump := -100, datum := { kind := .ofCode 9 } },
    { opcode := .push, datum := .ofObject (some 2) }]
  items := #[
    { name := "unused", entry := -5, constructs := .ofCode 9 },
    { name := "f g", params := ["a", "b"], entry := 3, constructs := .array },
    { entry := 7 }]
  start := 2
  stop := 6

/-- Its listing. -/
def unsuitedListing : Text :=
  [".entry L2",
    ".end L6",
    "\tpush func fn(a, b) @L3 array",
    "\tpush func fn",
    "L2:",
    "\tjmp @L4",
    "L3:",
    "\tfetch \"x y\"",
    "L4:",
    "\tcall 2",
    "\tjmpz -100",
    "L6:",
    "\tpush func () @L7",
    "L7:"].flatMap fun line => Text.ofString line ++ Text.ofString "\n"

theorem listing_of_decode_unsuitedImage : Cbor.codec.Lawful Item.sizeLimit ∧
    decode unsuitedImage = .ok unsuitedProgram ∧ unsuitedProgram.PushesKnown ∧
    unsuitedProgram.Transcribable ∧
    ∃ again, unsuitedProgram.snapshot.listing = .ok unsuitedListing ∧
      assemble unsuitedListing = .ok again ∧ again.Retraces unsuitedProgram := by
  have decoded : decode unsuitedImage = .ok unsuitedProgram := by decide +kernel
  have isListing : unsuitedProgram.snapshot.listing = .ok unsuitedListing := by decide +kernel
  have assembles : (assemble unsuitedListing).toOption.isSome = true := by decide +kernel
  obtain ⟨again, isAgain⟩ : ∃ again, assemble unsuitedListing = .ok again := by
    cases result : assemble unsuitedListing with
    | ok again => exact ⟨again, rfl⟩
    | error error =>
      rw [result] at assembles
      cases assembles
  have worded : ∀ declaration, unsuitedProgram.Pushes declaration → declaration.Worded := by
    rintro declaration ⟨-, -, index, -, found⟩
    have all : ∀ declaration ∈ unsuitedProgram.items.toList, declaration.Worded := by
      unfold Declaration.Worded
      decide +kernel
    exact all declaration (List.mem_of_getElem? found)
  obtain ⟨known, written⟩ := listing_of_decode Cbor.lawful decoded
  obtain ⟨transcribable, retraces⟩ := written worded
  exact ⟨Cbor.lawful, decoded, known.mp ⟨_, isListing⟩,
    transcribable.mp ⟨_, again, isListing, isAgain⟩, again, isListing, isAgain,
    retraces _ again isListing isAgain⟩

/-- A program that pushes a function which is entered behind all instructions. -/
def strayProgram : Program where
  code := #[{ opcode := .push, datum := .ofObject (some 0) }]
  items := #[{ name := "f", entry := 99 }]
  stop := 1

/-- Its image. -/
def strayImage : Text :=
  [0xA5, 0x01, 0x01, 0x02, 0x00, 0x03, 0x01, 0x04, 0x81, 0xA3, 0x01, 0x03, 0x03, 0x05, 0x07,
    0x01, 0x05, 0x81, 0xA2, 0x01, 0x61, 0x66, 0x03, 0x18, 0x63]

/-- Its listing. -/
def strayListing : Text := "\tpush func f() @L99\n"

/-- A program that pushes an operand of an unknown kind. -/
def unknownProgram : Program where
  code := #[{ opcode := .push, datum := { kind := .unknown ⟨3, by decide⟩ } }]
  stop := 1

/-- Its image. -/
def unknownImage : Text :=
  [0xA4, 0x01, 0x01, 0x02, 0x00, 0x03, 0x01, 0x04, 0x81, 0xA2, 0x01, 0x03, 0x03, 0x09]

theorem Codec.Lawful.exists_bytes {codec : Codec} {limit : ℕ} (lawful : codec.Lawful limit)
    (storable : program.snapshot.Storable limit)
    (numbered : program.snapshot.renumbered = program) :
    ∃ bytes, codec.decode bytes = .ok program := by
  obtain ⟨bytes, -, decoded, -⟩ := storable.exists_image lawful
  exact ⟨bytes, numbered ▸ decoded⟩

theorem storable_strayProgram {limit : ℕ} (few : 1 ≤ limit) :
    strayProgram.snapshot.Storable limit := by
  refine ⟨by decide, by decide, by decide, few, by decide +kernel, ?_⟩
  intro instruction member object
  cases List.mem_singleton.mp (Array.mem_toList_iff.mpr member)
  refine ⟨_, ProgramOf.item?_snapshot .., ?_⟩
  exact ⟨by decide +kernel, fun param among => absurd among List.not_mem_nil, Nat.zero_le _⟩

theorem storable_unknownProgram {limit : ℕ} (few : 1 ≤ limit) :
    unknownProgram.snapshot.Storable limit := by
  refine ⟨by decide, by decide, by decide, few, by decide +kernel, ?_⟩
  intro instruction member object
  cases List.mem_singleton.mp (Array.mem_toList_iff.mpr member)
  cases object

/-- Images are read, with any lawful codec, that have a listing which does not assemble, or no
listing at all. -/
theorem exists_image_without_source :
    Cbor.codec.Lawful Item.sizeLimit ∧ decode strayImage = .ok strayProgram ∧
      decode unknownImage = .ok unknownProgram ∧
      (∀ (codec : Codec) (limit : ℕ), codec.Lawful limit →
        (∃ bytes, codec.decode bytes = .ok strayProgram) ∧
          ∃ bytes, codec.decode bytes = .ok unknownProgram) ∧
      strayProgram.snapshot.listing = .ok strayListing ∧
      (∀ again, assemble strayListing ≠ .ok again) ∧
      ∀ text, unknownProgram.snapshot.listing ≠ .ok text := by
  refine ⟨Cbor.lawful, by decide +kernel, by decide +kernel, fun codec limit lawful => ?_,
    by decide +kernel, fun again assembles => ?_, fun text isListing => ?_⟩
  · have few : 1 ≤ limit := (show 1 ≤ 16 by decide).trans lawful.small.1
    exact ⟨lawful.exists_bytes (storable_strayProgram few) (by decide +kernel),
      lawful.exists_bytes (storable_unknownProgram few) (by decide +kernel)⟩
  · have rejected : (assemble strayListing).toOption = none := by decide +kernel
    rw [assembles] at rejected
    cases rejected
  · cases isListing

end Image

end ScriptEngine
