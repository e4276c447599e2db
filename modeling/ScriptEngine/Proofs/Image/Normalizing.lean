/-
This file proves that reading an image normalises it, with any lawful codec. However an image is
written, what is read has its bounds within its code, valid opcodes only, and a function for each
operand that is meant to be one; and nothing in it is larger than memory. So it has an image of its
own, and reading that one gives the program over again, but that no number keeps the sign of a zero,
and from then on nothing changes.
-/

import Mathlib
import ScriptEngine.Proofs.Image.Building

namespace ScriptEngine

/-! ### Programs and their images -/

namespace Program

variable {program : Program}

theorem function?_unsigned (instruction : Instruction ℕ) :
    instruction.unsigned.function? = instruction.function? := rfl

theorem met_unsigned (program : Program) :
    program.unsigned.snapshot.met = program.snapshot.met := by
  have used : functionsUsed (program.code.map Instruction.unsigned).toList =
      functionsUsed program.code.toList := by
    unfold functionsUsed
    rw [Array.toList_map, List.filterMap_map]
    exact List.filterMap_congr fun instruction _ => function?_unsigned instruction
  exact congrArg (firstUses []) used

/-- `renumbered` and `unsigned` do not disturb each other. -/
theorem renumbered_unsigned (program : Program) :
    program.unsigned.snapshot.renumbered = program.snapshot.renumbered.unsigned := by
  have code : (program.code.map Instruction.unsigned).map
        (Instruction.numbered program.snapshot.met) =
      (program.code.map (Instruction.numbered program.snapshot.met)).map
        Instruction.unsigned := by
    rw [Array.map_map, Array.map_map]
    rfl
  have whole : program.unsigned.snapshot.renumbered =
      { code := (program.code.map Instruction.unsigned).map
          (Instruction.numbered program.unsigned.snapshot.met)
        items := (program.unsigned.snapshot.met.map program.snapshot.declared).toArray
        start := program.start
        stop := program.stop } := rfl
  rw [whole, met_unsigned, code]
  rfl

variable {codec : Image.Codec} {limit : ℕ} {bytes : Text}

/-- Without the signs of zeros a program that was read is `Storable`. -/
theorem storable_unsigned_of_decode (lawful : codec.Lawful limit) (short : bytes.length < 2 ^ 63)
    (decoded : codec.decode bytes = .ok program) : program.unsigned.snapshot.Storable limit := by
  obtain ⟨image, read, gives⟩ := Image.exists_gives_of_decode decoded
  have legible := lawful.legible _ _ read
  have sized := lawful.sized _ _ short read
  have consistent := gives.consistent.unsigned
  refine ⟨consistent.nonneg, consistent.ordered, consistent.within, ?_,
    fun instruction member => ?_, fun instruction member object => ?_⟩
  · have size : program.unsigned.code.size = image.code.length := by
      rw [unsigned, Array.size_map, ← Array.length_toList, gives.code.length_eq]
    exact size ▸ legible.code
  · obtain ⟨original, among, rfl⟩ := Array.mem_map.mp member
    obtain ⟨written, there, given⟩ :=
      Image.exists_source_of_mem gives.code (Array.mem_toList_iff.mpr among)
    refine ⟨given.valid, ?_, Number.unsigned_ne _⟩
    show original.datum.text.Storable
    rw [given.text]
    exact ⟨legible.texts written there, sized.texts written there⟩
  · obtain ⟨declaration, listed, found⟩ :=
      (consistent.linked instruction member).exists_item object
    have there : declaration ∈ image.functions := by
      rw [← gives.functions]
      exact Array.mem_toList_iff.mpr listed
    obtain ⟨name, params, few⟩ := legible.declarations declaration there
    have room := sized.declarations declaration there
    refine ⟨declaration, ?_, ⟨name, room.name⟩,
      fun param among => ⟨params param among, room.params param among⟩, few⟩
    rw [ProgramOf.item?_snapshot, found]
    rfl

/-- The sign of a zero, which `unsigned` drops, does not show in an image. -/
theorem encode_unsigned (lawful : codec.Lawful limit) (consistent : Image.Consistent program) :
    codec.encode program.unsigned.snapshot = codec.encode program.snapshot := by
  rw [Image.Codec.encode_eq (scripted_of_linked consistent.linked).writable_eq,
    Image.Codec.encode_eq (scripted_of_linked consistent.unsigned.linked).writable_eq,
    renumbered_unsigned, Image.ofProgram_unsigned, lawful.omits]

end Program

namespace Image

/-- Reading normalises, with any lawful codec. However the bytes of an image are written, the
program that is read has its bounds within its code, valid opcodes only, and a function for every
operand that is meant to be one. It has an image of its own, which is read as a program that
`ProgramOf.Mirrors` it but for the signs of zeros, which `Program.unsigned` drops, and which that
program has for an image, too. The length that is supposed is more than any memory holds. -/
theorem decode_normalizes {codec : Codec} {limit : ℕ} {bytes : Text} {program : Program}
    (lawful : codec.Lawful limit) (short : bytes.length < 2 ^ 63)
    (decoded : codec.decode bytes = .ok program) :
    0 ≤ program.start ∧ program.start ≤ program.stop ∧
      program.stop.toInt ≤ program.code.size ∧
      (∀ instruction ∈ program.code, instruction.opcode.isValid ∧
        (instruction.datum.kind = .object →
          ∃ declaration, program.item? instruction.datum = some declaration)) ∧
      ∃ image again, codec.encode program.snapshot = .ok image ∧
        codec.decode image = .ok again ∧ codec.encode again.snapshot = .ok image ∧
        again.Mirrors program.unsigned.snapshot ∧
        (program.Unsigned → again.Mirrors program.snapshot) := by
  have consistent := consistent_of_decode decoded
  refine ⟨consistent.nonneg, consistent.ordered, consistent.within, fun instruction member =>
    ⟨consistent.valid instruction member, fun object => ?_⟩, ?_⟩
  · obtain ⟨declaration, -, found⟩ := (consistent.linked instruction member).exists_item object
    exact ⟨declaration, found⟩
  · have storable := Program.storable_unsigned_of_decode lawful short decoded
    have mirrors := storable.scripted.mirrors
    obtain ⟨image, encoded, decodes, twice⟩ := storable.exists_image lawful
    rw [Program.encode_unsigned lawful consistent] at encoded
    refine ⟨image, _, encoded, decodes, twice, mirrors, fun free => ?_⟩
    rwa [Program.unsigned_eq_self_iff.mpr free] at mirrors ⊢

/-- Bytes that are an image in an unusual form: its fields are in no order, one of them is unknown,
one is named by a text and one is there twice; lengths and integers take more bytes than they need;
the instructions and a name come in pieces; and the first function is never used. -/
def looseImage : Text :=
  [0xBF, 0x18, 0x63, 0xF6,
    0x04, 0x9F, 0xA4, 0x07, 0x02, 0x03, 0x19, 0x00, 0x05, 0x01, 0x03, 0x01, 0x00,
      0xA3, 0x01, 0x03, 0x03, 0x01, 0x04, 0xF9, 0x3C, 0x00, 0xF6, 0xFF,
    0x05, 0x82, 0xA0, 0xA2, 0x03, 0x02, 0x01, 0x7F, 0x61, 0x66, 0x61, 0x67, 0xFF,
    0x01, 0x1B, 0x00, 0x00, 0x00, 0x00, 0x00, 0x00, 0x00, 0x01, 0x61, 0x33, 0x03, 0xFF]

/-- The program that is read from them. -/
def looseProgram : Program where
  code := #[{ opcode := .push, datum := .ofObject (some 1) },
    { opcode := .push, datum := .ofNumber 1 }, {}]
  items := #[{}, { name := "fg", entry := 2 }]
  stop := 3

theorem decode_normalizes_looseImage :
    Cbor.codec.Lawful Item.sizeLimit ∧ decode looseImage = .ok looseProgram ∧
      looseProgram.Unsigned ∧
      ∃ image again, encode looseProgram.snapshot = .ok image ∧ decode image = .ok again ∧
        encode again.snapshot = .ok image ∧ again.Mirrors looseProgram.snapshot := by
  have decoded : decode looseImage = .ok looseProgram := by decide +kernel
  have free : looseProgram.Unsigned := by
    unfold Program.Unsigned
    decide +kernel
  obtain ⟨_, _, _, _, image, again, encoded, read, twice, _, mirrors⟩ :=
    decode_normalizes Cbor.lawful (by decide) decoded
  exact ⟨Cbor.lawful, decoded, free, image, again, encoded, read, twice, mirrors free⟩

end Image

end ScriptEngine
