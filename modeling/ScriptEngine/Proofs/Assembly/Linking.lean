/-
This file links the draft that the rows of a program leave. Every label that the draft uses is one
that the program has, and stands for the address it was named after; so linking restores the
offsets of jumps, the entries of functions and the bounds, and the rows of a plain program assemble
to that program.
-/

import Mathlib
import ScriptEngine.Proofs.Assembly.Printing
import ScriptEngine.Proofs.Assembly.Reassembling

namespace ScriptEngine

namespace Assembly

variable {program : Program} {draft : Draft}

/-! ### Addresses with a label -/

theorem mem_targets_of_instruction {pc : ℕ} {instruction : Instruction ℕ} {target : Int64}
    (there : program.code.toList[pc]? = some instruction)
    (uses : target ∈ instructionTargets program.snapshot pc instruction) :
    target ∈ targets program.snapshot := by
  obtain ⟨inside, rfl⟩ := List.getElem?_eq_some_iff.mp there
  have numbers : (pc, program.code.toList[pc]) ∈ numbered program.snapshot := by
    rw [numbered_snapshot]
    refine List.mem_iff_getElem?.mpr ⟨pc, ?_⟩
    rw [numberedFrom, List.getElem?_zip_eq_some]
    refine ⟨?_, there⟩
    rw [List.getElem?_range' inside, Nat.zero_add, Nat.one_mul]
  exact List.mem_append_left _ (List.mem_append_left _ (List.mem_flatMap.mpr ⟨_, numbers, uses⟩))

theorem jumpTarget_mem_targets {pc : ℕ} {instruction : Instruction ℕ}
    (there : program.code.toList[pc]? = some instruction)
    (isJump : instruction.opcode.isJump = true)
    (inside : labelled program.size (ProgramOf.jumpTarget pc instruction) = true) :
    ProgramOf.jumpTarget pc instruction ∈ targets program.snapshot := by
  refine mem_targets_of_instruction there (List.mem_append_left _ ?_)
  have both : (instruction.opcode.isJump &&
      labelled program.snapshot.size (ProgramOf.jumpTarget pc instruction)) = true := by
    rw [isJump]
    exact inside
  rw [if_pos both]
  exact List.mem_singleton_self _

/-- Functions that are used in order, `Ordered`, are all used. -/
theorem mem_of_lt_reach {declarations : List Declaration} {uses : List ℕ}
    (ordered : Ordered declarations uses) {index : ℕ} (below : index < reach uses) :
    index ∈ uses := by
  induction uses using List.reverseRecOn with
  | nil => cases below
  | append_singleton before last ih =>
    have earlier : Ordered declarations before := fun front use behind split =>
      ordered front use (behind ++ [last]) (by rw [split, List.append_assoc, List.cons_append])
    have place := ordered before last [] rfl
    rw [reach_append_singleton] at below
    by_cases seen : index < reach before
    · exact List.mem_append_left _ (ih earlier seen)
    · have next : index = last := by omega
      rw [next]
      exact List.mem_append_right _ (List.mem_singleton_self _)

/-- Only a push refers to a function. -/
theorem opcode_eq_push {instruction : Instruction ℕ} (assembled : instruction.Assembled)
    (object : instruction.datum.kind = .object) : instruction.opcode = .push := by
  have literals : ∀ opcode ∈ Opcode.valid, opcode.operandClass = .literal → opcode = .push := by
    decide +kernel
  obtain ⟨valid, -, suits⟩ := assembled
  refine literals _ valid ?_
  generalize instruction.opcode.operandClass = operand at suits
  cases operand with
  | literal => rfl
  | none | jump => exact absurd object (by rw [show instruction.datum = {} from suits]; decide)
  | name =>
    obtain ⟨text, isDatum | isDatum⟩ := suits <;> rw [isDatum] at object <;> cases object
  | count =>
    obtain ⟨count, isDatum⟩ := suits
    rw [isDatum] at object
    cases object

/-- Every function of an `Assembled` program is pushed, so its entry has a label. -/
theorem entry_mem_targets (assembled : program.Assembled) {declaration : Declaration}
    (member : declaration ∈ program.items.toList) :
    declaration.entry ∈ targets program.snapshot := by
  obtain ⟨index, there⟩ := List.getElem?_of_mem member
  have below : index < reach (functionsUsed program.code.toList) := by
    rw [assembled.declared.all]
    exact (List.getElem?_eq_some_iff.mp there).1
  obtain ⟨instruction, among, refers⟩ :=
    List.mem_filterMap.mp (mem_of_lt_reach assembled.declared.ordered below)
  obtain ⟨pc, found⟩ := List.getElem?_of_mem among
  refine mem_targets_of_instruction found ?_
  rw [Instruction.function?] at refers
  split at refers
  · case isTrue object =>
    have push := opcode_eq_push (assembled.code instruction among) object
    rw [instructionTargets_eq, refers, Option.bind_some, there]
    refine List.mem_append_right _ ?_
    rw [if_pos ⟨push, object⟩]
    exact List.mem_singleton_self _
  · cases refers

theorem start_mem_targets (other : program.start ≠ 0) :
    program.start ∈ targets program.snapshot := by
  refine List.mem_append_left _ (List.mem_append_right _ ?_)
  rw [if_neg (show ¬ program.snapshot.start = 0 from other)]
  exact List.mem_singleton_self _

theorem stop_mem_targets (other : program.stop ≠ program.size) :
    program.stop ∈ targets program.snapshot := by
  refine List.mem_append_right _ ?_
  rw [if_neg (show ¬ program.snapshot.stop = program.snapshot.size from other)]
  exact List.mem_singleton_self _

/-- An address that a label can stand for is one of the program or the one behind it. -/
theorem exists_address {size : ℕ} {target : Int64} (small : size < 2 ^ 63)
    (inside : labelled (Int64.ofNat size) target = true) :
    ∃ address ≤ size, target = Int64.ofNat address := by
  unfold labelled at inside
  rw [Bool.and_eq_true, decide_eq_true_eq, decide_eq_true_eq, Int64.le_iff_toInt_le,
    Int64.le_iff_toInt_le, Int64.toInt_ofNat_of_lt small] at inside
  obtain ⟨natural, bounded⟩ := inside
  have natural : 0 ≤ target.toInt := natural
  refine ⟨target.toInt.toNat, by omega, ?_⟩
  rw [← Int64.toInt_inj, Int64.toInt_ofNat_of_lt (by omega)]
  omega

/-! ### Resolving -/

/-- A draft that `Holds` a program finds each label that the program has. -/
theorem resolve_eq {before : List (Instruction ℕ)} {bound address : ℕ}
    (holds : draft.Holds program before bound) (bounded : bound ≤ 2 ^ 63) (below : address < bound)
    (target : Int64.ofNat address ∈ targets program.snapshot) {use : LabelUse}
    (isLabel : use.label = labelName (Int64.ofNat address)) :
    draft.resolve use = .ok address := by
  have found : draft.address? use.label = some address := by
    rw [Draft.address?, holds.labels, isLabel, lookup_labelsBelow _ bounded (by omega),
      if_pos ⟨below, List.contains_iff_mem.mpr target⟩]
  rw [Draft.resolve, found]
  rfl

/-- `linkJumps` restores the offsets of the jumps that are listed, so that if no others differ the
instructions are those that were meant. -/
theorem linkJumps_eq {jumps : List (ℕ × LabelUse)} {code whole : Array (Instruction ℕ)}
    (resolves : ∀ use ∈ jumps, ∃ instruction address, whole[use.1]? = some instruction ∧
      draft.resolve use.2 = .ok address ∧
      Int64.ofNat address - Int64.ofNat use.1 - 1 = instruction.jump)
    (size : code.size = whole.size)
    (agrees : ∀ pc instruction, whole[pc]? = some instruction →
      ∃ jump, code[pc]? = some { instruction with jump } ∧
        (jump = instruction.jump ∨ pc ∈ jumps.map Prod.fst)) :
    draft.linkJumps jumps code = .ok whole := by
  induction jumps generalizing code with
  | nil =>
    have same : code = whole := by
      refine Array.ext_getElem? fun pc => ?_
      cases there : whole[pc]? with
      | none =>
        rw [Array.getElem?_eq_none_iff, ← size] at there
        exact Array.getElem?_eq_none_iff.mpr there
      | some instruction =>
        obtain ⟨jump, found, rfl | none⟩ := agrees pc instruction there
        · exact found
        · cases none
    rw [same]
    rfl
  | cons use rest ih =>
    obtain ⟨pc, label⟩ := use
    obtain ⟨instruction, address, there, resolved, offset⟩ := resolves _ List.mem_cons_self
    rw [Draft.linkJumps, resolved]
    refine ih (fun use member => resolves use (List.mem_cons_of_mem _ member))
      (by rw [Array.size_modify, size]) fun other found isFound => ?_
    obtain ⟨jump, before, same⟩ := agrees other found isFound
    rw [Array.getElem?_modify, before]
    by_cases here : pc = other
    · subst here
      rw [there] at isFound
      cases isFound
      refine ⟨instruction.jump, ?_, .inl rfl⟩
      rw [if_pos rfl, Option.map_some, offset]
    · refine ⟨jump, if_neg here, same.imp_right fun among => ?_⟩
      rcases List.mem_cons.mp among with is | later
      · exact absurd is.symm here
      · exact later

theorem linkFunctions_eq (assembled : program.Assembled) (small : program.code.size < 2 ^ 63)
    (holds : draft.Holds program program.code.toList (program.code.size + 1)) :
    draft.linkFunctions = .ok program.items := by
  have functions := holds.functions
  rw [assembled.declared.all, List.take_length, ← List.forall₂_eq_eq_eq,
    List.forall₂_map_left_iff, List.forall₂_map_right_iff] at functions
  -- The labels of a program's functions are resolved, whatever line uses them.
  have resolves : ∀ declaration ∈ program.items.toList, ∀ use : LabelUse,
      use.label = labelName declaration.entry →
        ∃ address, draft.resolve use = .ok address ∧
          declaration.entry = Int64.ofNat address := by
    intro declaration member use isLabel
    obtain ⟨address, below, isEntry⟩ := assembled.entries declaration member
    have target := entry_mem_targets assembled member
    rw [isEntry] at isLabel target
    exact ⟨address, resolve_eq holds (by omega) (by omega) target isLabel, isEntry⟩
  rw [Draft.linkFunctions_eq_ok_iff]
  generalize draft.functions.toList = sources, program.items.toList = items
    at functions resolves ⊢
  induction functions with
  | nil => exact .nil
  | cons same _ ih =>
    obtain ⟨here, later⟩ := List.forall_mem_cons.mp resolves
    obtain ⟨isDeclaration, isLabel⟩ := Prod.mk.inj same
    obtain ⟨address, resolved, isEntry⟩ := here _ isLabel
    refine .cons ⟨address, resolved, ?_⟩ (ih later)
    rw [isDeclaration, ← isEntry]
    rfl

theorem linkJumps_holds (small : program.code.size < 2 ^ 63)
    (holds : draft.Holds program program.code.toList (program.code.size + 1)) :
    draft.linkJumps draft.jumps draft.code = .ok program.code := by
  refine linkJumps_eq ?_ holds.size ?_
  · intro use member
    obtain ⟨instruction, there, isJump, inside, isLabel⟩ := holds.jumps use member
    obtain ⟨address, bounded, isTarget⟩ := exists_address small inside
    have target := jumpTarget_mem_targets there isJump inside
    rw [isTarget] at target isLabel
    refine ⟨instruction, address, by rwa [Array.getElem?_toList] at there,
      resolve_eq holds (by omega) (by omega) target isLabel, ?_⟩
    rw [← isTarget, ProgramOf.jumpTarget]
    grind
  · intro pc instruction there
    exact holds.code pc instruction (by rwa [Array.getElem?_toList])

/-- A bound is found where a directive gave it, and else is the usual one. -/
theorem resolveOr_eq (holds : draft.Holds program program.code.toList (program.code.size + 1))
    (small : program.code.size < 2 ^ 63) {use : Option LabelUse} {bound usual : ℕ}
    (bounded : bound ≤ program.code.size) (standard : usual ≤ program.code.size)
    (target : Int64.ofNat bound ≠ Int64.ofNat usual →
      Int64.ofNat bound ∈ targets program.snapshot)
    (isUse : use.map LabelUse.label = if Int64.ofNat bound = Int64.ofNat usual then none
      else some (labelName (Int64.ofNat bound))) :
    draft.resolveOr use usual = .ok bound := by
  split at isUse
  · case isTrue same =>
    have values := congrArg Int64.toInt same
    rw [Int64.toInt_ofNat_of_lt (by omega), Int64.toInt_ofNat_of_lt (by omega)] at values
    rw [Option.map_eq_none_iff.mp isUse, Nat.cast_inj.mp values]
    rfl
  · case isFalse other =>
    obtain ⟨label, rfl, isLabel⟩ := Option.map_eq_some_iff.mp isUse
    exact resolve_eq holds (by omega) (by omega) (target other) isLabel

/-- The draft that `Holds` all of an `Assembled` program is linked to it. -/
theorem link_eq (assembled : program.Assembled) (small : program.code.size < 2 ^ 63)
    (holds : draft.Holds program program.code.toList (program.code.size + 1)) :
    draft.link = .ok program := by
  obtain ⟨start, stop, ordered, bounded, isStart, isStop⟩ := assembled.bounds
  have entry : draft.resolveOr draft.entry 0 = .ok start := by
    refine resolveOr_eq holds small (ordered.trans bounded) (Nat.zero_le _) ?_ ?_
    · rw [← isStart]
      exact start_mem_targets
    · rw [← isStart]
      exact holds.entry
  have last : draft.resolveOr draft.stop draft.code.size = .ok stop := by
    rw [holds.size, Array.length_toList]
    refine resolveOr_eq holds small bounded (Nat.le_refl _) ?_ ?_
    · rw [← isStop]
      exact stop_mem_targets
    · rw [← isStop]
      exact holds.stop
  exact Draft.link_eq_ok_iff.mpr ⟨start, stop, linkJumps_holds small holds,
    linkFunctions_eq assembled small holds, entry, last, ordered, isStart, isStop⟩

/-- The rows of a `Plain` program assemble to it. -/
theorem assemble_rows (assembled : program.Assembled) (plain : program.Plain)
    (counts : program.Counts) (small : program.code.size < 2 ^ 63) :
    assemble ((rows program).flatMap Row.text) = .ok program := by
  obtain ⟨draft, reads, holds⟩ := readLines_rows assembled plain counts small
  exact assemble_eq_ok_iff.mpr ⟨draft, reads, link_eq assembled small holds⟩

end Assembly

end ScriptEngine
