/-
This file proves that images lose nothing. A program whose objects are script functions, whose
texts are well-formed and whose numbers are not the negative zero has an image, and reading that
image gives a program that mirrors it: the same instructions between the same bounds, with
functions that correspond one to one, so that two instructions share a function in the one just if
they do in the other. The image of what was read is the image that it was read from.
-/

import Mathlib
import ScriptEngine.Proofs.Image.Codecs
import ScriptEngine.Proofs.Image.Lawful
import ScriptEngine.Proofs.Image.Numbering

namespace ScriptEngine

/-! ### What can be stored -/

/-- A text that an image can hold. -/
structure Text.Storable (text : Text) : Prop where
  utf8 : text.isUtf8
  short : text.length < 2 ^ 63

instance (text : Text) : Decidable text.Storable :=
  decidable_of_iff (text.isUtf8 ∧ text.length < 2 ^ 63)
    ⟨fun ⟨utf8, short⟩ => ⟨utf8, short⟩, fun ⟨utf8, short⟩ => ⟨utf8, short⟩⟩

/-- An instruction with a valid opcode and an operand whose text and number an image keeps. -/
structure Instruction.Storable {Reference : Type} (instruction : Instruction Reference) : Prop where
  valid : instruction.opcode.isValid
  text : instruction.datum.text.Storable
  signed : instruction.datum.number ≠ -0

instance {Reference : Type} (instruction : Instruction Reference) :
    Decidable instruction.Storable :=
  decidable_of_iff (instruction.opcode.isValid ∧ instruction.datum.text.Storable ∧
      instruction.datum.number ≠ -0)
    ⟨fun ⟨valid, text, signed⟩ => ⟨valid, text, signed⟩,
      fun ⟨valid, text, signed⟩ => ⟨valid, text, signed⟩⟩

/-- A function that an image keeps, if sequences of so many members are read. -/
structure Declaration.Storable (limit : ℕ) (declaration : Declaration) : Prop where
  name : declaration.name.Storable
  params : ∀ param ∈ declaration.params, Text.Storable param
  few : declaration.params.length ≤ limit

instance (limit : ℕ) (declaration : Declaration) : Decidable (declaration.Storable limit) :=
  decidable_of_iff (declaration.name.Storable ∧
      (∀ param ∈ declaration.params, Text.Storable param) ∧ declaration.params.length ≤ limit)
    ⟨fun ⟨name, params, few⟩ => ⟨name, params, few⟩, fun ⟨name, params, few⟩ => ⟨name, params, few⟩⟩

/-- A program out of memory of which an image keeps everything: the bounds lie within the code, all
objects are script functions that are `Declaration.Storable`, and all texts and lists have room in
an image. -/
structure ProgramOf.Storable (limit : ℕ) (snapshot : Snapshot) : Prop where
  nonneg : 0 ≤ snapshot.start
  ordered : snapshot.start ≤ snapshot.stop
  within : snapshot.stop.toInt ≤ snapshot.code.size
  few : snapshot.code.size ≤ limit
  instructions : ∀ instruction ∈ snapshot.code, instruction.Storable
  functions : ∀ instruction ∈ snapshot.code, instruction.datum.kind = .object →
    ∃ declaration, snapshot.item? instruction.datum = some (.script declaration) ∧
      declaration.Storable limit

/-- An instruction without what it refers to. -/
def Instruction.detached {Reference : Type} (instruction : Instruction Reference) :
    Instruction Reference :=
  { instruction with datum := { instruction.datum with object := none } }

/-- A program is a snapshot over again, up to the numbers of its functions: its instructions are the
same but for what they refer to, `Instruction.detached`, and refer to the same functions. -/
structure ProgramOf.Mirrors (program : Program) (snapshot : Snapshot) : Prop where
  start : program.start = snapshot.start
  stop : program.stop = snapshot.stop
  /-- The opcodes, the jump offsets and all of the operands but what they refer to. -/
  code : program.code.map Instruction.detached = snapshot.code.map Instruction.detached
  /-- An instruction that refers to a function refers to an equal one. -/
  functions : ∀ (pc : ℕ) (instruction original : Instruction ℕ),
    program.code[pc]? = some instruction → snapshot.code[pc]? = some original →
    original.datum.kind = .object →
    ∃ declaration, program.item? instruction.datum = some declaration ∧
      snapshot.item? original.datum = some (.script declaration)
  /-- Other instructions refer to nothing. -/
  others : ∀ instruction ∈ program.code, instruction.datum.kind ≠ .object →
    instruction.datum.object = none
  /-- Two instructions share a function just if they did. -/
  sharing : ∀ (first second : ℕ) (instruction original other otherOriginal : Instruction ℕ),
    program.code[first]? = some instruction → snapshot.code[first]? = some original →
    program.code[second]? = some other → snapshot.code[second]? = some otherOriginal →
    original.datum.kind = .object → otherOriginal.datum.kind = .object →
    (instruction.datum.object = other.datum.object ↔
      original.datum.object = otherOriginal.datum.object)
  /-- There is no function besides. -/
  used : ∀ place < program.items.size, ∃ instruction ∈ program.code,
    instruction.datum.kind = .object ∧ instruction.datum.object = some place

namespace ProgramOf

variable {limit : ℕ} {snapshot : Snapshot}

theorem Storable.scripted (storable : snapshot.Storable limit) : snapshot.Scripted := by
  intro instruction member object
  obtain ⟨declaration, found, -⟩ := storable.functions instruction member object
  exact ⟨declaration, found⟩

/-- An operand that is meant to be an object has been met. -/
theorem Scripted.exists_met (scripted : snapshot.Scripted) {instruction : Instruction ℕ}
    (member : instruction ∈ snapshot.code) (object : instruction.datum.kind = .object) :
    ∃ index ∈ snapshot.met, instruction.datum.object = some index ∧
      (instruction.numbered snapshot.met).datum.object = some (snapshot.met.idxOf index) := by
  obtain ⟨declaration, found⟩ := scripted instruction member object
  obtain ⟨index, refers, function, -⟩ := exists_of_item? object found
  refine ⟨index, mem_met member function, refers, ?_⟩
  unfold Instruction.numbered
  dsimp only
  rw [function]
  rfl

theorem size_renumbered (snapshot : Snapshot) :
    snapshot.renumbered.items.size = snapshot.met.length := by
  rw [renumbered, List.size_toArray, List.length_map]

/-- A program that is `Storable` passes the checks of its image: it is `Image.Consistent`. -/
theorem Storable.consistent (storable : snapshot.Storable limit) :
    Image.Consistent snapshot.renumbered where
  nonneg := storable.nonneg
  ordered := storable.ordered
  within := by
    rw [renumbered, Array.size_map]
    exact storable.within
  valid := by
    intro instruction member
    obtain ⟨original, among, rfl⟩ := Array.mem_map.mp member
    exact (storable.instructions original among).valid
  linked := by
    intro instruction member
    obtain ⟨original, among, rfl⟩ := Array.mem_map.mp member
    rw [size_renumbered]
    refine ⟨fun object => ?_, fun other => ?_⟩
    · obtain ⟨index, met, -, place⟩ := storable.scripted.exists_met among object
      exact ⟨_, List.idxOf_lt_length_iff.mpr met, place⟩
    · exact Instruction.object_numbered_of_ne other

theorem Storable.texts (storable : snapshot.Storable limit) :
    ∀ written ∈ (Image.ofProgram snapshot.renumbered).code, written.text.Storable := by
  intro written member
  obtain ⟨instruction, among, rfl⟩ := List.mem_map.mp member
  obtain ⟨original, there, rfl⟩ := Array.mem_map.mp (Array.mem_toList_iff.mp among)
  exact (storable.instructions original there).text

theorem Storable.declarations (storable : snapshot.Storable limit) :
    ∀ declaration ∈ (Image.ofProgram snapshot.renumbered).functions,
      declaration.Storable limit := by
  intro declaration member
  obtain ⟨index, met, rfl⟩ := List.mem_map.mp member
  obtain ⟨instruction, among, function⟩ := exists_of_mem_met met
  obtain ⟨declaration, found, kept⟩ :=
    storable.functions instruction among (Instruction.kind_of_function? function)
  obtain ⟨place, -, same, there⟩ :=
    exists_of_item? (Instruction.kind_of_function? function) found
  rw [same] at function
  cases function
  rw [declared, there]
  exact kept

theorem Storable.length_code_le (storable : snapshot.Storable limit) :
    (Image.ofProgram snapshot.renumbered).code.length ≤ limit := by
  rw [Image.ofProgram, List.length_map, Array.length_toList, renumbered, Array.size_map]
  exact storable.few

theorem Storable.length_functions_le (storable : snapshot.Storable limit) :
    (Image.ofProgram snapshot.renumbered).functions.length ≤ limit := by
  rw [Image.ofProgram, Array.length_toList, size_renumbered]
  exact snapshot.length_met_le.trans storable.few

/-- The image of a `Storable` program is legible. -/
theorem Storable.legible (storable : snapshot.Storable limit) :
    (Image.ofProgram snapshot.renumbered).Legible limit where
  code := storable.length_code_le
  texts written member := (storable.texts written member).utf8
  functions := storable.length_functions_le
  declarations declaration member :=
    have kept := storable.declarations declaration member
    ⟨kept.name.utf8, fun param among => (kept.params param among).utf8, kept.few⟩

/-- The image of a program that can be stored has room in memory. -/
theorem Storable.sized (storable : snapshot.Storable limit) (small : limit < 2 ^ 63) :
    (Image.ofProgram snapshot.renumbered).Sized where
  code := storable.length_code_le.trans_lt small
  texts written member := (storable.texts written member).short
  functions := storable.length_functions_le.trans_lt small
  declarations declaration member :=
    have kept := storable.declarations declaration member
    ⟨kept.name.short, fun param among => (kept.params param among).short,
      kept.few.trans_lt small⟩

theorem Storable.unsigned (storable : snapshot.Storable limit) :
    snapshot.renumbered.Unsigned := by
  intro instruction member
  obtain ⟨original, among, rfl⟩ := Array.mem_map.mp member
  exact (storable.instructions original among).signed

/-- The `renumbered` program `Mirrors` a program that is `Scripted`. -/
theorem Scripted.mirrors (scripted : snapshot.Scripted) :
    snapshot.renumbered.Mirrors snapshot where
  start := rfl
  stop := rfl
  code := Array.map_map
  functions := by
    intro pc instruction original there originalThere object
    rw [renumbered, Array.getElem?_map, originalThere] at there
    cases there
    have among := Array.mem_of_getElem? originalThere
    obtain ⟨declaration, found⟩ := scripted original among object
    exact ⟨declaration, item?_numbered among object found, found⟩
  others := by
    intro instruction member other
    obtain ⟨original, -, rfl⟩ := Array.mem_map.mp member
    exact Instruction.object_numbered_of_ne other
  sharing := by
    intro first second instruction original other otherOriginal there originalThere otherThere
      otherOriginalThere object otherObject
    rw [renumbered, Array.getElem?_map, originalThere] at there
    rw [renumbered, Array.getElem?_map, otherOriginalThere] at otherThere
    cases there
    cases otherThere
    obtain ⟨index, met, refers, place⟩ :=
      scripted.exists_met (Array.mem_of_getElem? originalThere) object
    obtain ⟨otherIndex, -, otherRefers, otherPlace⟩ :=
      scripted.exists_met (Array.mem_of_getElem? otherOriginalThere) otherObject
    rw [refers, otherRefers, place, otherPlace, Option.some_inj, Option.some_inj]
    exact List.idxOf_inj met
  used := by
    intro place below
    rw [size_renumbered] at below
    obtain ⟨instruction, among, function⟩ := exists_of_mem_met (List.getElem_mem below)
    have object := Instruction.kind_of_function? function
    refine ⟨_, Array.mem_map.mpr ⟨instruction, among, rfl⟩, object, ?_⟩
    show instruction.function?.map _ = _
    rw [function, Option.map_some, snapshot.nodup_met.idxOf_getElem]

end ProgramOf

/-! ### The image of a program -/

/-- A program that can be written down has the bytes of its image, if the codec writes any. -/
theorem Image.Codec.encode_eq {codec : Codec} {snapshot : Snapshot} {program : Program}
    (writable : snapshot.writable = .ok program) :
    codec.encode snapshot =
      (codec.marshal (ofProgram program)).elim (.error .unwritable) Except.ok := by
  unfold Codec.encode
  rw [writable]
  cases written : codec.marshal (ofProgram program) with
  | none =>
    simp only [bind, Except.bind, written]
    rfl
  | some bytes =>
    simp only [bind, Except.bind, written]
    rfl

theorem Image.Codec.encode_of_scripted {codec : Codec} {snapshot : Snapshot} {bytes : Text}
    (scripted : snapshot.Scripted)
    (written : codec.marshal (ofProgram snapshot.renumbered) = some bytes) :
    codec.encode snapshot = .ok bytes := by
  rw [Codec.encode_eq scripted.writable_eq, written]
  rfl

/-- A program that is `ProgramOf.Storable` has an image, which is read as the program with its
functions `renumbered`, and which that program has for an image, too. -/
theorem ProgramOf.Storable.exists_image {codec : Image.Codec} {limit : ℕ} {snapshot : Snapshot}
    (storable : snapshot.Storable limit) (lawful : codec.Lawful limit) :
    ∃ bytes, codec.encode snapshot = .ok bytes ∧
      codec.decode bytes = .ok snapshot.renumbered ∧
      codec.encode snapshot.renumbered.snapshot = .ok bytes := by
  have scripted := storable.scripted
  have sized := storable.sized (lawful.small.2.trans (by decide))
  obtain ⟨bytes, written⟩ := lawful.writes _ sized
  have decoded := lawful.decode_of_legible storable.consistent sized storable.legible written
  rw [Program.unsigned_eq_self_iff.mpr storable.unsigned] at decoded
  refine ⟨bytes, Image.Codec.encode_of_scripted scripted written, decoded,
    Image.Codec.encode_of_scripted scripted.scripted_renumbered ?_⟩
  rw [ProgramOf.renumbered_renumbered]
  exact written

/-- With a lawful codec, a program that can be stored has an image, which is read as a program that
`ProgramOf.Mirrors` it and has the same image. -/
theorem Image.decode_encode {codec : Codec} {limit : ℕ} {snapshot : Snapshot}
    (lawful : codec.Lawful limit) (storable : snapshot.Storable limit) :
    ∃ bytes program, codec.encode snapshot = .ok bytes ∧ codec.decode bytes = .ok program ∧
      program.Mirrors snapshot ∧ codec.encode program.snapshot = .ok bytes := by
  obtain ⟨bytes, encoded, decoded, twice⟩ := storable.exists_image lawful
  exact ⟨bytes, snapshot.renumbered, encoded, decoded, storable.scripted.mirrors, twice⟩

/-- Two functions of one declaration that five instructions use in turn, the later one first, among
items that no instruction uses. -/
def sharingSnapshot : Snapshot where
  code := #[
    { opcode := .push, datum := .ofObject (some 3) },
    { opcode := .fetch, datum := { kind := .name, text := "größe", object := some 1 } },
    { opcode := .push, datum := .ofObject (some 0) },
    { opcode := .push, datum := .ofNumber Number.notANumber },
    { opcode := .jmpnz, jump := -4, datum := .ofNumber (Number.ofRatio true 1 3) },
    { opcode := .push, datum := .ofObject (some 3) },
    { opcode := .push, datum := .ofObject (some 0) }]
  items := #[
    .script { name := "f", params := ["a", "b"], entry := 2, constructs := .array },
    .value,
    .native {},
    .script { name := "f", params := ["a", "b"], entry := 2, constructs := .array }]
  start := 2
  stop := 7

theorem decode_encode_sharingSnapshot :
    Image.Cbor.codec.Lawful Item.sizeLimit ∧ sharingSnapshot.Storable Item.sizeLimit ∧
    ∃ bytes program, Image.encode sharingSnapshot = .ok bytes ∧
      Image.decode bytes = .ok program ∧ program.Mirrors sharingSnapshot ∧
      Image.encode program.snapshot = .ok bytes := by
  have storable : sharingSnapshot.Storable Item.sizeLimit := by
    refine ⟨by decide, by decide, by decide, by decide, by decide +kernel, ?_⟩
    intro instruction member object
    simp only [sharingSnapshot, List.mem_toArray, List.mem_cons, List.not_mem_nil,
      or_false] at member
    rcases member with rfl | rfl | rfl | rfl | rfl | rfl | rfl
    · exact ⟨_, rfl, by decide +kernel⟩
    · cases object
    · exact ⟨_, rfl, by decide +kernel⟩
    · cases object
    · cases object
    · exact ⟨_, rfl, by decide +kernel⟩
    · exact ⟨_, rfl, by decide +kernel⟩
  exact ⟨Image.Cbor.lawful, storable, Image.decode_encode Image.Cbor.lawful storable⟩

end ScriptEngine
