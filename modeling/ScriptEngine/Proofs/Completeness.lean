/-
This file proves that accepted programs are complete: every function that an instruction refers to
is there. Assembly numbers functions as it declares them; an image names them by numbers that
reading checks against the functions it holds.
-/

import Mathlib
import ScriptEngine.Proofs.Assembly.Drafting
import ScriptEngine.Proofs.Image.Codecs
import ScriptEngine.Runner.Loading

namespace ScriptEngine

open Assembly (mapError_eq_ok_iff)

/-- Every item that an instruction refers to is there. -/
def ProgramOf.Complete {Item : Type} (program : ProgramOf Item) : Prop :=
  ∀ instruction ∈ program.code, ∀ index, instruction.datum.object = some index →
    index < program.items.size

/-- A program that assembly or an image gives, whatever codec the image is read with. -/
def Program.Accepted (program : Program) : Prop :=
  (∃ source, Assembly.assemble source = .ok program) ∨
    ∃ (codec : Image.Codec) (bytes : Text), codec.decode bytes = .ok program

/-! ### Assembled programs -/

/-- An operand that `Datum.Suits` a class and refers to something is meant to be an object. -/
theorem Datum.Suits.kind {datum : Datum ℕ} {operand : Opcode.OperandClass} {index : ℕ}
    (suits : datum.Suits operand) (refers : datum.object = some index) : datum.kind = .object := by
  cases operand with
  | none | jump =>
    rw [show datum = {} from suits] at refers
    cases refers
  | name => obtain ⟨text, rfl | rfl⟩ := suits <;> cases refers
  | count =>
    obtain ⟨count, rfl⟩ := suits
    cases refers
  | literal =>
    cases suits with
    | null | number | text | bool => cases refers
    | object place => rfl

theorem Program.Assembled.complete {program : Program} (assembled : program.Assembled) :
    program.Complete := by
  intro instruction member index refers
  have among := Array.mem_toList_iff.mpr member
  have kind := (assembled.code instruction among).datum.kind refers
  have used : index ∈ functionsUsed program.code.toList :=
    List.mem_filterMap.mpr ⟨instruction, among, (if_pos kind).trans refers⟩
  have bound := lt_reach_of_mem used
  rwa [assembled.declared.all, Array.length_toList] at bound

/-! ### Decoded programs -/

namespace Image

theorem complete_of_decode {codec : Codec} {bytes : Text} {program : Program}
    (decoded : codec.decode bytes = .ok program) : program.Complete :=
  fun instruction member _ refers =>
    ((consistent_of_decode decoded).linked instruction member).lt refers

end Image

theorem Program.Accepted.complete {program : Program} (accepted : program.Accepted) :
    program.Complete := by
  rcases accepted with ⟨source, assembles⟩ | ⟨codec, bytes, decoded⟩
  · exact (Assembly.assembled_of_assemble assembles).complete
  · exact Image.complete_of_decode decoded

theorem accepted_of_loadProgram {codec : Image.Codec} {path : Text} {content : Option Text}
    {program : Program} (loaded : loadProgram codec path content = .ok program) :
    program.Accepted := by
  unfold loadProgram at loaded
  cases content with
  | none => cases loaded
  | some bytes =>
    dsimp only at loaded
    split at loaded
    · exact .inr ⟨codec, bytes, mapError_eq_ok_iff.mp loaded⟩
    · exact .inl ⟨bytes, mapError_eq_ok_iff.mp loaded⟩

end ScriptEngine
