/-
This file says what may be asked of a codec, and what follows for programs whatever the codec is.
A lawful codec writes every image, and reads what it has written as the same image, but that no
number keeps the sign of a zero. It reads legible images only: their texts are well-formed, and no
sequence in them is longer than a limit. Nothing else is supposed of it. Behind the codec an image
is checked, and a program comes out of its own image just as it went in.
-/

import Mathlib
import ScriptEngine.Image
import ScriptEngine.Proofs.Assembly.Reading

namespace ScriptEngine

open Assembly (bind_eq_ok_iff)

/-! ### The sign of zero -/

/-- The number without the sign of a zero. -/
def Number.unsigned (number : Float) : Float :=
  if number == 0 then 0 else number

/-- The operand with its number `Number.unsigned`. -/
def Datum.unsigned {Reference : Type} (datum : Datum Reference) : Datum Reference :=
  { datum with number := Number.unsigned datum.number }

/-- The instruction with its operand `Datum.unsigned`. -/
def Instruction.unsigned {Reference : Type} (instruction : Instruction Reference) :
    Instruction Reference :=
  { instruction with datum := instruction.datum.unsigned }

/-- The program none of whose numbers has a sign of zero. -/
def Program.unsigned (program : Program) : Program :=
  { program with code := program.code.map Instruction.unsigned }

/-- A program without negative zeros. -/
def Program.Unsigned (program : Program) : Prop :=
  ∀ instruction ∈ program.code, instruction.datum.number ≠ -0

/-- The instruction of an image with its number `Number.unsigned`. -/
def Image.Written.unsigned (written : Written) : Written :=
  { written with number := Number.unsigned written.number }

/-- The image none of whose numbers has a sign of zero: each is `Number.unsigned`. -/
def Image.unsigned (image : Image) : Image :=
  { image with code := image.code.map Written.unsigned }

theorem Number.unsigned_ne (number : Float) : unsigned number ≠ -0 := by
  unfold unsigned
  split
  · decide +kernel
  · case isFalse nonzero =>
    intro same
    rw [same] at nonzero
    exact nonzero (by decide +kernel)

theorem Number.unsigned_eq {number : Float} (signed : number ≠ -0) : unsigned number = number := by
  unfold unsigned
  split
  · case isTrue zero =>
    obtain ⟨_, _, same | ⟨same, _⟩ | ⟨same, _⟩⟩ := Float.beq_iff_ne_nan_and_eq.mp zero
    · exact same.symm
    · exact same.symm
    · exact absurd same signed
  · rfl

namespace Program

variable {program : Program}

theorem unsigned_eq_self_iff : program.unsigned = program ↔ program.Unsigned := by
  constructor
  · intro same instruction member
    rw [← same] at member
    obtain ⟨original, -, rfl⟩ := Array.mem_map.mp member
    exact Number.unsigned_ne original.datum.number
  · intro free
    have same : ∀ instruction ∈ program.code, instruction.unsigned = id instruction := by
      intro instruction member
      unfold Instruction.unsigned Datum.unsigned
      rw [Number.unsigned_eq (free instruction member)]
      rfl
    have code : program.code.map Instruction.unsigned = program.code := by
      rw [Array.map_congr_left same, Array.map_id]
    unfold unsigned
    rw [code]

end Program

theorem Image.ofProgram_unsigned (program : Program) :
    ofProgram program.unsigned = (ofProgram program).unsigned := by
  have code : program.unsigned.code.toList.map Written.ofInstruction =
      (program.code.toList.map Written.ofInstruction).map Written.unsigned := by
    rw [Program.unsigned, Array.toList_map, List.map_map, List.map_map]
    rfl
  unfold ofProgram
  rw [code]
  rfl

/-! ### Images that are read -/

/-- A function whose lengths are numbers of 64 bits, as those of all things in memory are. -/
structure Declaration.Sized (declaration : Declaration) : Prop where
  name : declaration.name.length < 2 ^ 63
  params : ∀ param ∈ declaration.params, param.length < 2 ^ 63
  few : declaration.params.length < 2 ^ 63

/-- A function whose texts are well-formed, and which has so many parameters at most. -/
structure Declaration.Legible (limit : ℕ) (declaration : Declaration) : Prop where
  name : declaration.name.isUtf8
  params : ∀ param ∈ declaration.params, Text.isUtf8 param
  few : declaration.params.length ≤ limit

namespace Image

/-- An image whose lengths are numbers of 64 bits, as those of all things in memory are. -/
structure Sized (image : Image) : Prop where
  code : image.code.length < 2 ^ 63
  texts : ∀ written ∈ image.code, written.text.length < 2 ^ 63
  functions : image.functions.length < 2 ^ 63
  declarations : ∀ declaration ∈ image.functions, declaration.Sized

/-- An image whose texts are well-formed, and whose sequences have so many members at most. -/
structure Legible (limit : ℕ) (image : Image) : Prop where
  code : image.code.length ≤ limit
  texts : ∀ written ∈ image.code, written.text.isUtf8
  functions : image.functions.length ≤ limit
  declarations : ∀ declaration ∈ image.functions, declaration.Legible limit

variable {limit : ℕ} {image : Image}

theorem legible_unsigned : image.unsigned.Legible limit ↔ image.Legible limit := by
  have texts : (∀ written ∈ image.unsigned.code, written.text.isUtf8) ↔
      ∀ written ∈ image.code, written.text.isUtf8 := List.forall_mem_map
  have length : image.unsigned.code.length = image.code.length := List.length_map ..
  constructor
  · intro legible
    exact ⟨length ▸ legible.code, texts.mp legible.texts, legible.functions, legible.declarations⟩
  · intro legible
    exact ⟨length ▸ legible.code, texts.mpr legible.texts, legible.functions, legible.declarations⟩

/-- What a codec has to do, if sequences of so many members at most are read. This much is known of
the one that images are written and read with: fields at their zero are left out, texts have to be
well-formed to be read, and sequences have to be short enough; what is read is `Legible`, and is the
image as `Image.unsigned`. -/
structure Codec.Lawful (codec : Codec) (limit : ℕ) : Prop where
  /-- The limit is a length of 31 bits, and not quite short. -/
  small : 16 ≤ limit ∧ limit < 2 ^ 31
  /-- Every image is written. -/
  writes : ∀ image : Image, image.Sized → ∃ bytes, codec.marshal image = some bytes
  /-- A number that is left out at zero is left out whatever its sign. -/
  omits : ∀ image : Image, codec.marshal image.unsigned = codec.marshal image
  /-- What was written from a legible image is read as the image, but for the signs of zeros. -/
  inverse : ∀ (image : Image) (bytes : Text), image.Sized → image.Legible limit →
    codec.marshal image = some bytes → codec.unmarshal bytes = some image.unsigned
  /-- What was written from any image is not read as another one. -/
  faithful : ∀ (image other : Image) (bytes : Text), image.Sized →
    codec.marshal image = some bytes → codec.unmarshal bytes = some other →
    other = image.unsigned
  /-- Nothing is read but what is legible. -/
  legible : ∀ (image : Image) (bytes : Text), codec.unmarshal bytes = some image →
    image.Legible limit
  /-- What is read from bytes in memory has room in memory. -/
  sized : ∀ (image : Image) (bytes : Text), bytes.length < 2 ^ 63 →
    codec.unmarshal bytes = some image → image.Sized

/-! ### Programs that pass the checks -/

/-- An operand that is meant to be an object refers to one of so many functions, and any other
operand refers to nothing. -/
structure Linked (functions : ℕ) (instruction : Instruction ℕ) : Prop where
  object : instruction.datum.kind = .object →
    ∃ place < functions, instruction.datum.object = some place
  other : instruction.datum.kind ≠ .object → instruction.datum.object = none

theorem Linked.lt {functions place : ℕ} {instruction : Instruction ℕ}
    (linked : Linked functions instruction) (refers : instruction.datum.object = some place) :
    place < functions := by
  by_cases object : instruction.datum.kind = .object
  · obtain ⟨found, below, same⟩ := linked.object object
    rw [same] at refers
    exact Option.some.inj refers ▸ below
  · rw [linked.other object] at refers
    cases refers

/-- A program that passes the checks of its image: its bounds lie within its code, its opcodes are
valid, and its instructions are `Linked` to its functions. -/
structure Consistent (program : Program) : Prop where
  nonneg : 0 ≤ program.start
  ordered : program.start ≤ program.stop
  within : program.stop.toInt ≤ program.code.size
  valid : ∀ instruction ∈ program.code, instruction.opcode.isValid
  linked : ∀ instruction ∈ program.code, Linked program.items.size instruction

variable {program : Program}

theorem Consistent.unsigned (consistent : Consistent program) :
    Consistent program.unsigned where
  nonneg := consistent.nonneg
  ordered := consistent.ordered
  within := by
    rw [show program.unsigned.code.size = program.code.size from Array.size_map]
    exact consistent.within
  valid := by
    intro instruction member
    obtain ⟨original, among, rfl⟩ := Array.mem_map.mp member
    exact consistent.valid original among
  linked := by
    intro instruction member
    obtain ⟨original, among, rfl⟩ := Array.mem_map.mp member
    have linked := consistent.linked original among
    exact ⟨linked.object, linked.other⟩

/-! ### Checking what was written -/

theorem check_ofInstruction {functions : ℕ} (pc : ℕ) {instruction : Instruction ℕ}
    (small : functions < 2 ^ 62) (valid : instruction.opcode.isValid)
    (linked : Linked functions instruction) :
    (Written.ofInstruction instruction).check functions pc = .ok instruction := by
  obtain ⟨opcode, jump, kind, number, text, bool, object⟩ := instruction
  have isValid : opcode.isValid = true := valid
  by_cases isObject : kind = .object
  · obtain ⟨place, below, refers⟩ := linked.object isObject
    cases refers
    have function : (Int64.ofNat (place + 1)).toInt = (place + 1 : ℕ) :=
      Int64.toInt_ofNat_of_lt (by omega)
    have positive : (1 : Int64) ≤ Int64.ofNat (place + 1) := by
      rw [Int64.le_iff_toInt_le, function, Int64.toInt_one]
      omega
    have room : ((place + 1 : ℕ) : ℤ) ≤ functions := Int.ofNat_le.mpr below
    simp only [Written.check, Written.ofInstruction, isValid, isObject, Option.elim_some, positive,
      function, room, Bool.not_true, Bool.false_eq_true, if_false, if_true, and_self]
    rfl
  · have refers := linked.other isObject
    cases refers
    simp only [Written.check, Written.ofInstruction, isValid, isObject, Bool.not_true,
      Bool.false_eq_true, if_false]
    rfl

theorem checkAll_ofInstruction {functions : ℕ} (pc : ℕ) {code : List (Instruction ℕ)}
    (small : functions < 2 ^ 62) (valid : ∀ instruction ∈ code, instruction.opcode.isValid)
    (linked : ∀ instruction ∈ code, Linked functions instruction) :
    checkAll functions pc (code.map Written.ofInstruction) = .ok code := by
  induction code generalizing pc with
  | nil => rfl
  | cons instruction rest ih =>
    rw [List.map_cons, checkAll,
      check_ofInstruction pc small (valid _ List.mem_cons_self) (linked _ List.mem_cons_self)]
    have others := ih (pc + 1) (fun other member => valid other (List.mem_cons_of_mem _ member))
      fun other member => linked other (List.mem_cons_of_mem _ member)
    show (checkAll functions (pc + 1) (rest.map Written.ofInstruction)).bind _ = _
    rw [others]
    rfl

/-- The image of a program that is `Consistent` is checked to give the program. -/
theorem Consistent.check_ofProgram (consistent : Consistent program)
    (few : program.items.size < 2 ^ 62) : (ofProgram program).check = .ok program := by
  have ordered := Int64.not_lt.mpr consistent.ordered
  have nonneg := Int64.not_lt.mpr consistent.nonneg
  have code : checkAll program.items.toList.length 0
      (program.code.toList.map Written.ofInstruction) = .ok program.code.toList :=
    checkAll_ofInstruction 0 (by rwa [Array.length_toList])
      (fun instruction member => consistent.valid instruction (Array.mem_toList_iff.mp member))
      fun instruction member => by
        rw [Array.length_toList]
        exact consistent.linked instruction (Array.mem_toList_iff.mp member)
  unfold check ofProgram
  simp only [ne_eq, not_true_eq_false, if_false, List.length_map, Array.length_toList, nonneg,
    ordered, false_or, Int.not_lt.mpr consistent.within]
  rw [Array.length_toList] at code
  rw [code]
  rfl

/-! ### What was checked -/

theorem exists_source_of_mem {Source Target : Type} {Relates : Source → Target → Prop}
    {sources : List Source} {targets : List Target} (all : List.Forall₂ Relates sources targets)
    {target : Target} (member : target ∈ targets) : ∃ source ∈ sources, Relates source target := by
  induction all with
  | nil => cases member
  | cons here _ inductionHypothesis =>
    rcases List.mem_cons.mp member with rfl | later
    · exact ⟨_, List.mem_cons_self, here⟩
    · obtain ⟨source, among, relates⟩ := inductionHypothesis later
      exact ⟨source, List.mem_cons_of_mem _ among, relates⟩

/-- An instruction comes from one of an image: it has its text, and it has passed the checks, so
that it is `Linked`. -/
structure Written.Gives (functions : ℕ) (written : Written) (instruction : Instruction ℕ) :
    Prop where
  text : instruction.datum.text = written.text
  valid : instruction.opcode.isValid
  linked : Linked functions instruction

theorem gives_of_check {functions pc : ℕ} {written : Written} {instruction : Instruction ℕ}
    (checked : written.check functions pc = .ok instruction) :
    written.Gives functions instruction := by
  unfold Written.check at checked
  dsimp only at checked
  split at checked
  · cases checked
  · case isFalse valid =>
    rw [Bool.not_eq_true', Bool.not_eq_false] at valid
    split at checked
    · case isTrue object =>
      split at checked
      · case isTrue within =>
        cases checked
        refine ⟨rfl, valid, fun _ => ⟨_, ?_, rfl⟩, fun other => absurd object other⟩
        have least : (1 : ℤ) ≤ written.function.toInt := Int64.le_iff_toInt_le.mp within.1
        omega
      · cases checked
    · case isFalse other =>
      cases checked
      exact ⟨rfl, valid, fun object => absurd object other, fun _ => rfl⟩

theorem gives_of_checkAll {functions pc : ℕ} {code : List Written}
    {instructions : List (Instruction ℕ)}
    (checked : checkAll functions pc code = .ok instructions) :
    List.Forall₂ (Written.Gives functions) code instructions := by
  induction code generalizing pc instructions with
  | nil =>
    cases checked
    exact .nil
  | cons written rest inductionHypothesis =>
    obtain ⟨instruction, here, checked⟩ := bind_eq_ok_iff.mp checked
    obtain ⟨others, later, ⟨⟩⟩ := bind_eq_ok_iff.mp checked
    exact .cons (gives_of_check here) (inductionHypothesis later)

/-- A program that an image was checked to give: it is `Consistent`, and has the functions of the
image and instructions that its instructions give. -/
structure Gives (image : Image) (program : Program) : Prop where
  consistent : Consistent program
  code : List.Forall₂ (Written.Gives program.items.size) image.code program.code.toList
  functions : program.items.toList = image.functions

theorem gives_of_check_eq_ok (checked : image.check = .ok program) : image.Gives program := by
  unfold check at checked
  dsimp only at checked
  split at checked
  · cases checked
  split at checked
  · cases checked
  · case isFalse.isFalse within =>
    obtain ⟨code, isCode, ⟨⟩⟩ := bind_eq_ok_iff.mp checked
    have each := gives_of_checkAll isCode
    rw [not_or, not_or, Int64.not_lt, Int64.not_lt, Int.not_lt] at within
    have source (instruction : Instruction ℕ) (member : instruction ∈ code.toArray) :=
      exists_source_of_mem each (List.mem_toArray.mp member)
    refine ⟨⟨within.1, within.2.1, ?_, fun instruction member => ?_, fun instruction member => ?_⟩,
      each, rfl⟩
    · rw [List.size_toArray, ← each.length_eq]
      exact within.2.2
    · obtain ⟨written, -, gives⟩ := source instruction member
      exact gives.valid
    · obtain ⟨written, -, gives⟩ := source instruction member
      exact gives.linked

/-! ### Codecs -/

variable {codec : Codec} {bytes : Text}

/-- What is decoded is what an image `Gives`. -/
theorem exists_gives_of_decode (decoded : codec.decode bytes = .ok program) :
    ∃ image, codec.unmarshal bytes = some image ∧ image.Gives program := by
  unfold Codec.decode at decoded
  split at decoded
  · case h_1 image read => exact ⟨image, read, gives_of_check_eq_ok decoded⟩
  · cases decoded

theorem consistent_of_decode (decoded : codec.decode bytes = .ok program) : Consistent program := by
  obtain ⟨image, -, gives⟩ := exists_gives_of_decode decoded
  exact gives.consistent

/-- A `Consistent` program that is `Legible` is decoded from what its image is written as, but for
the signs of zeros. -/
theorem Codec.Lawful.decode_of_legible (lawful : codec.Lawful limit)
    (consistent : Consistent program) (sized : (ofProgram program).Sized)
    (legible : (ofProgram program).Legible limit)
    (written : codec.marshal (ofProgram program) = some bytes) :
    codec.decode bytes = .ok program.unsigned := by
  have read := lawful.inverse _ _ sized legible written
  have few : program.items.size ≤ limit := by simpa [ofProgram] using legible.functions
  have small := lawful.small.2
  unfold Codec.decode
  rw [read]
  dsimp only
  rw [← ofProgram_unsigned]
  refine consistent.unsigned.check_ofProgram ?_
  show program.items.size < 2 ^ 62
  omega

/-- What the image of any program that is not `Legible` is written as is not read. -/
theorem Codec.Lawful.decode_of_illegible (lawful : codec.Lawful limit)
    (sized : (ofProgram program).Sized) (illegible : ¬ (ofProgram program).Legible limit)
    (written : codec.marshal (ofProgram program) = some bytes) :
    codec.decode bytes = .error .unreadable := by
  have unread : codec.unmarshal bytes = none := by
    refine Option.eq_none_iff_forall_ne_some.mpr fun other read => illegible ?_
    have legible := lawful.legible _ _ read
    rw [lawful.faithful _ _ _ sized written read] at legible
    exact legible_unsigned.mp legible
  unfold Codec.decode
  rw [unread]
  rfl

end Image

end ScriptEngine
