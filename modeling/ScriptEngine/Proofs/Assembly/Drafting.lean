/-
This file says what assembling gives. Whatever the source, an instruction has the operand that its
opcode takes, functions are numbered in the order in which they are first pushed, a function is
pushed again only by a name that is its own, and all addresses lie within the program. Each line
keeps this of the draft, and linking keeps it of the program.
-/

import Mathlib
import ScriptEngine.Proofs.Assembly.Reading
import ScriptEngine.Proofs.Image.Numbering

namespace ScriptEngine

open Text (chars)

/-! ### Functions in the order of their first use -/

/-- How many functions are numbered so far when these were used. -/
def reach (uses : List ℕ) : ℕ := uses.foldl (fun met use => max met (use + 1)) 0

theorem reach_append_singleton (uses : List ℕ) (use : ℕ) :
    reach (uses ++ [use]) = max (reach uses) (use + 1) := by
  unfold reach
  rw [List.foldl_append]
  rfl

theorem lt_reach_of_mem {uses : List ℕ} {use : ℕ} (member : use ∈ uses) : use < reach uses := by
  induction uses using List.reverseRecOn with
  | nil => cases member
  | append_singleton before last ih =>
    rw [reach_append_singleton]
    rcases List.mem_append.mp member with earlier | final
    · exact (ih earlier).trans_le (le_max_left _ _)
    · rw [List.mem_singleton.mp final]
      exact (Nat.lt_succ_self _).trans_le (le_max_right _ _)

/-- The function with a number has a name. -/
def Named (declarations : List Declaration) (index : ℕ) : Prop :=
  ∃ declaration, declarations[index]? = some declaration ∧ declaration.name ≠ []

/-- Each use is of the next function, or of an earlier one that has a name. -/
def Ordered (declarations : List Declaration) (uses : List ℕ) : Prop :=
  ∀ before use after, uses = before ++ use :: after →
    use = reach before ∨ use < reach before ∧ Named declarations use

/-- What is so of every item with those in front of it stays so if it is of the last one. -/
theorem forall_split_append_singleton {Item : Type} {items : List Item} {last : Item}
    {Holds : List Item → Item → Prop} :
    (∀ before item after, items ++ [last] = before ++ item :: after → Holds before item) ↔
      (∀ before item after, items = before ++ item :: after → Holds before item) ∧
        Holds items last := by
  constructor
  · intro all
    refine ⟨fun before item after split => all before item (after ++ [last]) ?_,
      all items last [] rfl⟩
    rw [split, List.append_assoc, List.cons_append]
  · rintro ⟨earlier, final⟩ before item after split
    rcases List.eq_nil_or_concat after with rfl | ⟨others, other, rfl⟩
    · obtain ⟨rfl, same⟩ := List.append_inj' split rfl
      cases same
      exact final
    · rw [List.concat_eq_append, ← List.cons_append, ← List.append_assoc] at split
      obtain ⟨rfl, -⟩ := List.append_inj' split rfl
      exact earlier before item others rfl

theorem Ordered.append_singleton {declarations : List Declaration} {uses : List ℕ} {use : ℕ}
    (ordered : Ordered declarations uses)
    (last : use = reach uses ∨ use < reach uses ∧ Named declarations use) :
    Ordered declarations (uses ++ [use]) :=
  forall_split_append_singleton.mpr ⟨ordered, last⟩

/-- A declaration as assembly can spell it. -/
structure Declaration.Spelt (declaration : Declaration) : Prop where
  params : ∀ param ∈ declaration.params, Assembly.isWord (chars param) = true
  constructs : declaration.constructs ∈ ConstructKind.known

/-- A declaration without its address. -/
def Declaration.unplaced (declaration : Declaration) : Declaration :=
  { declaration with entry := 0 }

/-- Declarations that assembly can spell, and how they are used: in order, all of them, and with
no name given twice. -/
structure Declared (declarations : List Declaration) (uses : List ℕ) : Prop where
  spelt : ∀ declaration ∈ declarations, declaration.Spelt
  distinct : declarations.Pairwise fun first second => first.name = [] ∨ first.name ≠ second.name
  ordered : Ordered declarations uses
  all : reach uses = declarations.length

namespace Declared

variable {declarations : List Declaration} {uses : List ℕ}

theorem nil : Declared [] [] where
  spelt := List.forall_mem_nil _
  distinct := List.Pairwise.nil
  ordered := fun before use after split => by simp at split
  all := rfl

theorem useAgain (declared : Declared declarations uses) {index : ℕ}
    (named : Named declarations index) : Declared declarations (uses ++ [index]) := by
  obtain ⟨declaration, found, -⟩ := id named
  have bound : index < reach uses := by
    rw [declared.all]
    exact (List.getElem?_eq_some_iff.mp found).1
  refine ⟨declared.spelt, declared.distinct,
    declared.ordered.append_singleton (.inr ⟨bound, named⟩), ?_⟩
  rw [reach_append_singleton, max_eq_left (Nat.succ_le_of_lt bound), declared.all]

theorem declare (declared : Declared declarations uses) {declaration : Declaration}
    (spelt : declaration.Spelt)
    (fresh : ∀ other ∈ declarations, other.name = [] ∨ other.name ≠ declaration.name) :
    Declared (declarations ++ [declaration]) (uses ++ [declarations.length]) where
  spelt := List.forall_mem_append.mpr ⟨declared.spelt, List.forall_mem_singleton.mpr spelt⟩
  distinct := by
    refine List.pairwise_append.mpr ⟨declared.distinct, List.pairwise_singleton _ _, ?_⟩
    intro other member _ last
    rw [List.mem_singleton.mp last]
    exact fresh other member
  ordered := by
    refine Ordered.append_singleton ?_ (Or.inl declared.all.symm)
    intro before use after split
    refine (declared.ordered before use after split).imp_right ?_
    rintro ⟨bound, found, there, named⟩
    refine ⟨bound, found, ?_, named⟩
    rw [List.getElem?_append_left (List.getElem?_eq_some_iff.mp there).1]
    exact there
  all := by
    rw [reach_append_singleton, declared.all, max_eq_right (Nat.le_succ _), List.length_append]
    rfl

/-- Entry addresses are no part of `Declared`. -/
theorem transfer (declared : Declared declarations uses) {others : List Declaration}
    (same : others.map Declaration.unplaced = declarations.map Declaration.unplaced) :
    Declared others uses where
  spelt := by
    intro other member
    have among : other.unplaced ∈ declarations.map Declaration.unplaced :=
      same ▸ List.mem_map_of_mem member
    obtain ⟨declaration, there, isOther⟩ := List.mem_map.mp among
    obtain ⟨params, constructs⟩ := declared.spelt declaration there
    have sameParams : declaration.params = other.params :=
      show declaration.unplaced.params = other.unplaced.params from congrArg _ isOther
    have sameKind : declaration.constructs = other.constructs :=
      show declaration.unplaced.constructs = other.unplaced.constructs from congrArg _ isOther
    exact ⟨sameParams ▸ params, sameKind ▸ constructs⟩
  distinct := by
    have names : (declarations.map Declaration.unplaced).Pairwise
        fun first second => first.name = [] ∨ first.name ≠ second.name :=
      List.pairwise_map.mpr declared.distinct
    rw [← same] at names
    exact List.pairwise_map.mp names
  ordered := by
    intro before use after split
    refine (declared.ordered before use after split).imp_right ?_
    rintro ⟨bound, found, there, named⟩
    have there := congrArg (Option.map Declaration.unplaced) there
    rw [← List.getElem?_map, ← same, List.getElem?_map] at there
    obtain ⟨other, isOther, isFound⟩ := Option.map_eq_some_iff.mp there
    have sameName : other.name = found.name :=
      show other.unplaced.name = found.unplaced.name from congrArg _ isFound
    exact ⟨bound, other, isOther, sameName ▸ named⟩
  all := by
    have lengths := congrArg List.length same
    rw [List.length_map, List.length_map] at lengths
    rw [declared.all, lengths]

end Declared

/-! ### Instructions as assembly gives them -/

theorem Opcode.operandClass_eq_literal {opcode : Opcode} :
    opcode.operandClass = .literal ↔ opcode = .push := by
  cases opcode <;> simp [operandClass]

theorem Opcode.operandClass_eq_jump {opcode : Opcode} :
    opcode.operandClass = .jump ↔ opcode.isJump = true := by
  cases opcode <;> simp [operandClass, isJump]

/-- The operand of a push. -/
inductive Datum.Literal : Datum ℕ → Prop
  | null : Datum.Literal {}
  | number (value : Float) : Datum.Literal (.ofNumber value)
  | text (value : Text) : Datum.Literal (.ofText value)
  | bool (value : Bool) : Datum.Literal (.ofBool value)
  | object (index : ℕ) : Datum.Literal (.ofObject (some index))

/-- The operand suits a class. -/
def Datum.Suits (datum : Datum ℕ) : Opcode.OperandClass → Prop
  | .none | .jump => datum = {}
  | .name => ∃ text, datum = .ofName text ∨ datum = .ofText text
  | .count => ∃ count, datum = .ofNumber (Number.ofNat count)
  | .literal => datum.Literal

/-- An instruction as assembly gives it: it can be executed, only a jump has an offset, and its
operand is one that the opcode takes, as `Datum.Suits` says. -/
structure Instruction.Assembled (instruction : Instruction ℕ) : Prop where
  opcode : instruction.opcode ∈ Opcode.valid
  jump : instruction.opcode.operandClass ≠ .jump → instruction.jump = 0
  datum : instruction.datum.Suits instruction.opcode.operandClass

namespace Assembly

/-! ### Drafts -/

namespace Draft

/-- The functions of a draft, without the labels of their entries. -/
def declarations (draft : Draft) : List Declaration := draft.functions.toList.map Prod.fst

/-- What holds of a draft behind each line: its instructions are `Instruction.Assembled`, and its
functions are `Declared` by their uses. -/
structure Sound (draft : Draft) : Prop where
  code : ∀ instruction ∈ draft.code.toList, instruction.Assembled
  labels : ∀ label ∈ draft.labels, label.2 ≤ draft.code.size
  jumps : ∀ jump ∈ draft.jumps, ∃ instruction, draft.code[jump.1]? = some instruction ∧
    instruction.opcode.operandClass = .jump
  declared : Declared draft.declarations (functionsUsed draft.code.toList)

variable {draft : Draft}

theorem sound_empty : Sound {} where
  code := List.forall_mem_nil _
  labels := List.forall_mem_nil _
  jumps := List.forall_mem_nil _
  declared := Declared.nil

theorem named_of_function? {name : Text} {index : ℕ} (found : draft.function? name = some index)
    (filled : name ≠ []) : Named draft.declarations index := by
  obtain ⟨bound, isName, -⟩ := Array.findIdx?_eq_some_iff_getElem.mp found
  have isName := of_decide_eq_true isName
  refine ⟨draft.functions[index].1, ?_, by rwa [isName]⟩
  rw [declarations, List.getElem?_map, Array.getElem?_toList, Array.getElem?_eq_getElem bound]
  rfl

theorem fresh_of_function? {name : Text} (absent : draft.function? name = none) :
    ∀ other ∈ draft.declarations, other.name ≠ name := by
  intro other member same
  obtain ⟨function, there, rfl⟩ := List.mem_map.mp member
  have different := Array.findIdx?_eq_none_iff.mp absent function (Array.mem_toList_iff.mp there)
  exact of_decide_eq_false different same

/-- An instruction is added behind a draft, whose functions are those of the instructions with
it. -/
theorem Sound.addInstruction (sound : draft.Sound) {functions : Array (Declaration × LabelUse)}
    {jumps : List (ℕ × LabelUse)} {instruction : Instruction ℕ} (assembled : instruction.Assembled)
    (isJump : ∀ jump ∈ jumps, jump ∈ draft.jumps ∨
      jump.1 = draft.code.size ∧ instruction.opcode.operandClass = .jump)
    (declared : Declared (functions.toList.map Prod.fst)
      (functionsUsed draft.code.toList ++ instruction.function?.toList)) :
    (Draft.addInstruction { draft with functions, jumps } instruction).Sound where
  code := by
    rw [Draft.addInstruction, Array.toList_push]
    exact List.forall_mem_append.mpr ⟨sound.code, List.forall_mem_singleton.mpr assembled⟩
  labels := by
    intro label member
    rw [Draft.addInstruction, Array.size_push]
    exact (sound.labels label member).trans (Nat.le_succ _)
  jumps := by
    intro jump member
    rcases isJump jump member with earlier | ⟨here, isJump⟩
    · obtain ⟨other, there, isJump⟩ := sound.jumps jump earlier
      refine ⟨other, ?_, isJump⟩
      rw [Draft.addInstruction, Array.getElem?_push_lt (Array.getElem?_eq_some_iff.mp there).1,
        ← Array.getElem?_eq_getElem]
      exact there
    · refine ⟨instruction, ?_, isJump⟩
      rw [Draft.addInstruction, here, Array.getElem?_push_size]
  declared := by
    have uses : functionsUsed (draft.code.push instruction).toList =
        functionsUsed draft.code.toList ++ instruction.function?.toList := by
      unfold functionsUsed
      rw [Array.toList_push, List.filterMap_append]
      cases used : instruction.function? <;> simp [used]
    exact uses ▸ declared

theorem Sound.addPlain (sound : draft.Sound) {instruction : Instruction ℕ}
    (assembled : instruction.Assembled) (plain : instruction.function? = none) :
    (draft.addInstruction instruction).Sound := by
  refine sound.addInstruction assembled (fun jump member => .inl member) ?_
  rw [plain, Option.toList_none, List.append_nil]
  exact sound.declared

theorem Sound.addLabel (sound : draft.Sound) (label : Text) :
    Sound { draft with labels := draft.labels ++ [(label, draft.code.size)] } where
  code := sound.code
  labels := List.forall_mem_append.mpr
    ⟨sound.labels, List.forall_mem_singleton.mpr (Nat.le_refl _)⟩
  jumps := sound.jumps
  declared := sound.declared

end Draft

/-! ### What lines keep -/

namespace Yields

/-- Parameter names are words, those read already and those still to come. -/
theorem parametersFrom : ∀ (tokens : List Token) {names found : List Text} {remaining : List Token},
    (∀ token ∈ tokens, token.Lexed) → (∀ name ∈ names, isWord (chars name) = true) →
    parametersFrom tokens names = .ok (found, remaining) →
      (∀ name ∈ found, isWord (chars name) = true) ∧ ∀ token ∈ remaining, token.Lexed
  | [], names, found, remaining, lexed, words, gives => by
    cases gives
    exact ⟨words, lexed⟩
  | token :: rest, names, found, remaining, lexed, words, gives => by
    obtain ⟨first, others⟩ := List.forall_mem_cons.mp lexed
    unfold Assembly.parametersFrom at gives
    dsimp only at gives
    split at gives
    · cases gives
    split at gives
    · cases gives
      exact ⟨words, others⟩
    split at gives
    · split at gives
      · cases gives
      · case isFalse kind =>
        exact parametersFrom rest others
          (List.forall_mem_singleton.mpr (first (not_not.mp kind))) gives
    split at gives
    · cases rest with
      | nil =>
        cases gives
        exact ⟨words, others⟩
      | cons second more =>
        obtain ⟨next, others⟩ := List.forall_mem_cons.mp others
        dsimp only at gives
        split at gives
        · cases gives
        split at gives
        · cases gives
        · case isFalse kind =>
          exact parametersFrom more others (List.forall_mem_append.mpr
            ⟨words, List.forall_mem_singleton.mpr (next (not_not.mp kind))⟩) gives
    · cases gives
termination_by tokens => tokens.length

theorem parameters :
    Yields parameters fun names => ∀ name ∈ names, isWord (chars name) = true := by
  intro tokens lexed names remaining gives
  rw [run_parameters] at gives
  exact parametersFrom tokens lexed (List.forall_mem_nil _) gives

theorem construct : Yields construct (· ∈ ConstructKind.known) := by
  refine peek.bind fun token _ => ?_
  split
  · refine skip.bind fun _ _ => ?_
    split
    · case h_1 kind found => exact .pure (List.mem_of_find?_eq_some found)
    · exact fail
  · exact .pure (by decide)

theorem declaration (name : Text) :
    Yields (declaration name) fun function => function.1.name = name ∧ function.1.Spelt := by
  refine symbol.bind fun _ _ => parameters.bind fun params words => symbol.bind fun _ _ => ?_
  refine identifier.bind fun label _ => construct.bind fun constructs known => ?_
  exact .pure ⟨rfl, words, known⟩

/-- A function is declared in a draft with `addFunction`, or one with a name used again. -/
theorem function (draft : Draft) :
    Yields (function draft) fun (after, index) =>
      after = draft ∧ Named draft.declarations index ∨
      ∃ function : Declaration × LabelUse, function.1.Spelt ∧
        (∀ other ∈ draft.declarations, other.name = [] ∨ other.name ≠ function.1.name) ∧
        (after, index) = draft.addFunction function := by
  refine peek.bind fun token lexed => ?_
  split
  · case isTrue identifier =>
    have filled : token.text ≠ [] := by
      intro none
      have word := lexed identifier
      rw [none] at word
      cases word
    refine skip.bind fun _ _ => peek.bind fun next _ => ?_
    split
    · split
      · exact fail
      · case h_2 absent =>
        refine (declaration token.text).bind fun function ⟨name, spelt⟩ => .pure (.inr ?_)
        have fresh := Draft.fresh_of_function? absent
        exact ⟨function, spelt, fun other member => .inr (name ▸ fresh other member), rfl⟩
    · split
      · case h_1 index found => exact .pure (.inl ⟨rfl, Draft.named_of_function? found filled⟩)
      · exact fail
  · refine (declaration []).bind fun function ⟨name, spelt⟩ => .pure (.inr ?_)
    exact ⟨function, spelt, fun other _ => name ▸ eq_or_ne _ _, rfl⟩

variable {draft : Draft}

theorem wordDatum {word : Text} {datum : Datum ℕ} (found : wordDatum? word = some datum) :
    datum.Literal ∧ datum.object = none := by
  unfold wordDatum? at found
  split at found
  · cases found
    exact ⟨.bool true, rfl⟩
  split at found
  · cases found
    exact ⟨.bool false, rfl⟩
  split at found
  · cases found
    exact ⟨.null, rfl⟩
  split at found
  · cases found
    exact ⟨.number _, rfl⟩
  split at found
  · cases found
    exact ⟨.number _, rfl⟩
  split at found
  · cases found
    exact ⟨.number _, rfl⟩
  · cases found

/-- The operand of a push, and the draft that is sound again with the push. -/
theorem literal (sound : draft.Sound) :
    Yields (literal draft) fun (after, datum) =>
      ∀ opcode ∈ Opcode.valid, opcode.operandClass = .literal →
        (after.addInstruction { opcode, datum }).Sound := by
  have plain : ∀ {datum : Datum ℕ}, datum.Literal → datum.object = none →
      ∀ opcode ∈ Opcode.valid, opcode.operandClass = .literal →
        (draft.addInstruction { opcode, datum }).Sound := by
    intro datum isLiteral noObject opcode valid isClass
    refine sound.addPlain ⟨valid, fun _ => rfl, by rw [isClass]; exact isLiteral⟩ ?_
    unfold Instruction.function?
    split
    · exact noObject
    · rfl
  refine next.bind fun token _ => ?_
  split
  · split
    · exact .pure (plain (.number _) rfl)
    · exact fail
  · exact .pure (plain (.text _) rfl)
  · split
    · refine (function draft).bind fun (after, index) step => .pure ?_
      intro opcode valid isClass
      have assembled : Instruction.Assembled { opcode, datum := .ofObject (some index) } :=
        ⟨valid, fun _ => rfl, by rw [isClass]; exact .object index⟩
      rcases step with ⟨rfl, named⟩ | ⟨function, spelt, fresh, added⟩
      · exact sound.addInstruction assembled (fun jump member => .inl member)
          (sound.declared.useAgain named)
      · cases added
        refine sound.addInstruction assembled (fun jump member => .inl member) ?_
        have declared := sound.declared.declare spelt fresh
        unfold Draft.declarations at declared
        rw [List.length_map, Array.length_toList] at declared
        rw [Array.toList_push, List.map_append]
        exact declared
    · split
      · case h_1 datum found => exact .pure (plain (wordDatum found).1 (wordDatum found).2)
      · exact fail
  · exact fail

theorem nameDatum : Yields nameDatum (·.Suits .name) := by
  refine next.bind fun token _ => ?_
  split
  · exact .pure ⟨token.text, .inl rfl⟩
  · exact .pure ⟨token.text, .inr rfl⟩
  · exact fail

theorem countDatum : Yields countDatum (·.Suits .count) := by
  refine number.bind fun token _ => ?_
  split
  · case h_1 count found =>
    split
    · exact fail
    · exact .pure ⟨count.toNatClampNeg, rfl⟩
  · exact fail

theorem jumpTarget : Yields jumpTarget fun _ => True := by
  refine next.bind fun token _ => ?_
  split
  · exact identifier.bind fun label _ => .pure trivial
  split
  · split
    · exact .pure trivial
    · exact fail
  · exact fail

theorem instruction (sound : draft.Sound) {opcode : Opcode} (valid : opcode ∈ Opcode.valid) :
    Yields (instruction draft opcode) Draft.Sound := by
  unfold Assembly.instruction
  split
  · case h_1 bare =>
    exact .pure (sound.addPlain ⟨valid, fun _ => rfl, by rw [bare]; rfl⟩ rfl)
  · case h_2 name =>
    refine nameDatum.bind fun datum suits => .pure ?_
    refine sound.addPlain ⟨valid, fun _ => rfl, by rw [name]; exact suits⟩ ?_
    obtain ⟨text, rfl | rfl⟩ := suits <;> rfl
  · case h_3 count =>
    refine countDatum.bind fun datum suits => .pure ?_
    refine sound.addPlain ⟨valid, fun _ => rfl, by rw [count]; exact suits⟩ ?_
    obtain ⟨count, rfl⟩ := suits
    rfl
  · case h_4 isLiteral =>
    exact (literal sound).bind fun (after, datum) again => .pure (again opcode valid isLiteral)
  · case h_5 jump =>
    refine jumpTarget.bind fun target _ => ?_
    cases target with
    | inl use =>
      refine .pure (sound.addInstruction ⟨valid, fun _ => rfl, by rw [jump]; rfl⟩ ?_ ?_)
      · intro other member
        rcases List.mem_append.mp member with earlier | here
        · exact .inl earlier
        · rw [List.mem_singleton.mp here]
          exact .inr ⟨rfl, jump⟩
      · exact (List.append_nil _).symm ▸ sound.declared
    | inr offset =>
      exact .pure (sound.addPlain ⟨valid, fun other => absurd jump other, by rw [jump]; rfl⟩ rfl)

theorem directive (sound : draft.Sound) (token : Token) :
    Yields (directive draft token) Draft.Sound := by
  refine identifier.bind fun label _ => ?_
  dsimp only
  split
  · exact .pure ⟨sound.code, sound.labels, sound.jumps, sound.declared⟩
  split
  · exact .pure ⟨sound.code, sound.labels, sound.jumps, sound.declared⟩
  · exact fail

theorem statement (sound : draft.Sound) (token : Token) :
    Yields (statement draft token) Draft.Sound := by
  have done : ∀ after : Draft, after.Sound →
      Yields (do Assembly.endOfLine; return after) Draft.Sound :=
    fun after sound => endOfLine.bind fun _ _ => .pure sound
  unfold Assembly.statement
  dsimp only
  split
  · exact (directive sound token).bind done
  split
  · case h_1 opcode found =>
    exact (instruction sound (List.mem_of_find?_eq_some found)).bind done
  · exact fail_bind

theorem line (sound : draft.Sound) : Yields (line draft) Draft.Sound := by
  refine firstWord?.bind fun found _ => ?_
  cases found with
  | none => exact .pure sound
  | some token =>
    refine peek.bind fun next _ => ?_
    split
    · refine skip.bind fun _ _ => ?_
      dsimp only
      split
      · exact fail_bind
      · refine firstWord?.bind fun found _ => ?_
        split
        · exact .pure (sound.addLabel token.text)
        · exact statement (sound.addLabel token.text) _
    · exact statement sound token

end Yields

theorem sound_of_readLines {draft after : Draft} {lines : List (List Token)} (sound : draft.Sound)
    (lexed : ∀ line ∈ lines, ∀ token ∈ line, token.Lexed)
    (read : readLines draft lines = .ok after) : after.Sound := by
  induction lines generalizing draft with
  | nil =>
    cases read
    exact sound
  | cons tokens rest ih =>
    obtain ⟨first, others⟩ := List.forall_mem_cons.mp lexed
    obtain ⟨next, remaining, ran, read⟩ := readLines_cons_eq_ok_iff.mp read
    exact ih (Yields.line sound tokens first next remaining ran).1 others read

theorem mem_of_mem_tokenLinesFrom {tokens : List Token} {line : List Token} :
    ∀ found ∈ tokenLinesFrom line tokens, ∀ token ∈ found, token ∈ line ++ tokens := by
  induction tokens generalizing line with
  | nil => exact List.forall_mem_nil _
  | cons token rest ih =>
    rw [tokenLinesFrom]
    split
    · refine List.forall_mem_cons.mpr ⟨?_, fun found among other member => ?_⟩
      · intro other member
        rw [List.append_cons]
        exact List.mem_append_left _ member
      · exact List.mem_append_right _ (List.mem_cons_of_mem _ (ih found among other member))
    · intro found among other member
      rw [List.append_cons]
      exact ih found among other member

/-! ### What linking keeps -/

namespace Draft

variable {draft : Draft}

theorem le_of_resolve (sound : draft.Sound) {use : LabelUse} {address : ℕ}
    (resolved : draft.resolve use = .ok address) : address ≤ draft.code.size := by
  unfold resolve at resolved
  split at resolved
  · case h_1 found isFound =>
    cases resolved
    obtain ⟨before, after, split, -⟩ := List.lookup_eq_some_iff.mp isFound
    exact sound.labels (use.label, address) (split ▸ by simp)
  · cases resolved

theorem functionsUsed_modify (code : List (Instruction ℕ)) (pc : ℕ) (offset : Int64) :
    functionsUsed (code.modify pc fun instruction => { instruction with jump := offset }) =
      functionsUsed code := by
  unfold functionsUsed
  induction code generalizing pc with
  | nil => cases pc <;> rfl
  | cons instruction rest ih =>
    cases pc with
    | zero => rfl
    | succ pc =>
      rw [List.modify_succ_cons, List.filterMap_cons, List.filterMap_cons, ih]

/-- What holds of code while its jumps are linked. -/
structure Linkable (jumps : List (ℕ × LabelUse)) (code : Array (Instruction ℕ)) : Prop where
  each : ∀ instruction ∈ code.toList, instruction.Assembled
  toJumps : ∀ jump ∈ jumps, ∀ instruction : Instruction ℕ, code[jump.1]? = some instruction →
    instruction.opcode.operandClass = .jump

theorem Linkable.modify {jumps : List (ℕ × LabelUse)} {code : Array (Instruction ℕ)} {pc : ℕ}
    {use : LabelUse} (linkable : Linkable ((pc, use) :: jumps) code) (offset : Int64) :
    Linkable jumps (code.modify pc fun instruction => { instruction with jump := offset }) := by
  have each : ∀ {index : ℕ} {instruction : Instruction ℕ},
      (code.modify pc fun instruction => { instruction with jump := offset })[index]? =
        some instruction →
      ∃ before, code[index]? = some before ∧ instruction.opcode = before.opcode ∧
        instruction.Assembled := by
    intro index instruction found
    rw [Array.getElem?_modify] at found
    split at found
    · case isTrue here =>
      obtain ⟨before, there, rfl⟩ := Option.map_eq_some_iff.mp found
      obtain ⟨valid, -, suits⟩ := linkable.each before (Array.mem_toList_iff.mpr
        (Array.mem_of_getElem? there))
      have isJump := linkable.toJumps (pc, use) List.mem_cons_self before (here ▸ there)
      exact ⟨before, there, rfl, valid, fun other => absurd isJump other, suits⟩
    · exact ⟨instruction, found, rfl, linkable.each instruction (Array.mem_toList_iff.mpr
        (Array.mem_of_getElem? found))⟩
  constructor
  · intro instruction member
    obtain ⟨index, there⟩ := Array.getElem?_of_mem (Array.mem_toList_iff.mp member)
    obtain ⟨-, -, -, assembled⟩ := each there
    exact assembled
  · intro jump member instruction found
    obtain ⟨before, there, same, -⟩ := each found
    rw [same]
    exact linkable.toJumps jump (List.mem_cons_of_mem _ member) before there

theorem linkJumps_keeps {jumps : List (ℕ × LabelUse)} {code linked : Array (Instruction ℕ)}
    (linkable : Linkable jumps code) (links : draft.linkJumps jumps code = .ok linked) :
    (∀ instruction ∈ linked.toList, instruction.Assembled) ∧ linked.size = code.size ∧
      functionsUsed linked.toList = functionsUsed code.toList := by
  induction jumps generalizing code with
  | nil =>
    cases links
    exact ⟨linkable.each, rfl, rfl⟩
  | cons jump rest ih =>
    obtain ⟨pc, use⟩ := jump
    obtain ⟨target, _, links⟩ := bind_eq_ok_iff.mp links
    obtain ⟨each, size, used⟩ := ih (linkable.modify _) links
    rw [Array.size_modify] at size
    rw [Array.toList_modify, functionsUsed_modify] at used
    exact ⟨each, size, used⟩

/-- A change of all elements succeeds if it does at each, and gives the results in order. -/
theorem mapM_eq_ok_iff {Source Target : Type} {change : Source → Except SourceError Target}
    {sources : List Source} {targets : List Target} :
    sources.mapM change = .ok targets ↔
      List.Forall₂ (fun source target => change source = .ok target) sources targets := by
  induction sources generalizing targets with
  | nil => simp [pure, Except.pure, eq_comm]
  | cons source rest ih =>
    rw [List.mapM_cons, List.forall₂_cons_left_iff]
    simp only [bind_eq_ok_iff, ih]
    simp [pure, Except.pure, eq_comm]

/-- `linkFunctions` gives each function of a draft the address of its own label. -/
theorem linkFunctions_eq_ok_iff {items : Array Declaration} :
    draft.linkFunctions = .ok items ↔
      List.Forall₂ (fun function item => ∃ address, draft.resolve function.2 = .ok address ∧
        { function.1 with entry := Int64.ofNat address } = item)
        draft.functions.toList items.toList := by
  have each : (fun (function : Declaration × LabelUse) item => (do
      return { function.1 with entry := Int64.ofNat (← draft.resolve function.2) }) =
        Except.ok item) = fun function item => ∃ address,
          draft.resolve function.2 = .ok address ∧
            { function.1 with entry := Int64.ofNat address } = item := by
    funext function item
    simp [bind_eq_ok_iff, pure, Except.pure]
  unfold linkFunctions
  rw [Array.mapM_eq_mapM_toList, ← each, ← mapM_eq_ok_iff]
  generalize (List.mapM _ draft.functions.toList : Except SourceError (List Declaration)) = linked
  cases linked with
  | error error => simp [Functor.map, Except.map]
  | ok found => simp [Functor.map, Except.map, List.toArray_eq_iff]

theorem linkFunctions_keeps (sound : draft.Sound) {items : Array Declaration}
    (links : draft.linkFunctions = .ok items) :
    items.toList.map Declaration.unplaced = draft.declarations.map Declaration.unplaced ∧
      ∀ declaration ∈ items.toList, ∃ address ≤ draft.code.size,
        declaration.entry = Int64.ofNat address := by
  have linked := linkFunctions_eq_ok_iff.mp links
  unfold declarations
  generalize draft.functions.toList = functions, items.toList = list at linked
  induction linked with
  | nil => exact ⟨rfl, List.forall_mem_nil _⟩
  | cons linked _ ih =>
    obtain ⟨address, resolved, rfl⟩ := linked
    refine ⟨?_, List.forall_mem_cons.mpr ⟨⟨address, le_of_resolve sound resolved, rfl⟩, ih.2⟩⟩
    rw [List.map_cons, List.map_cons, List.map_cons, ih.1]
    rfl

theorem le_of_resolveOr (sound : draft.Sound) {use : Option LabelUse} {usual address : ℕ}
    (small : usual ≤ draft.code.size) (resolved : draft.resolveOr use usual = .ok address) :
    address ≤ draft.code.size := by
  cases use with
  | none =>
    cases resolved
    exact small
  | some use => exact le_of_resolve sound resolved

/-- `link` succeeds on a draft just if all its labels are resolved and it does not start behind its
end. -/
theorem link_eq_ok_iff {program : Program} :
    draft.link = .ok program ↔ ∃ entry stop,
      draft.linkJumps draft.jumps draft.code = .ok program.code ∧
        draft.linkFunctions = .ok program.items ∧ draft.resolveOr draft.entry 0 = .ok entry ∧
        draft.resolveOr draft.stop draft.code.size = .ok stop ∧ entry ≤ stop ∧
        program.start = Int64.ofNat entry ∧ program.stop = Int64.ofNat stop := by
  have addressed {code : Array (Instruction ℕ)} {items : Array Declaration} {entry stop : ℕ} :
      draft.addresses.mapError AssemblyError.source = .ok (code, items, entry, stop) ↔
        draft.linkJumps draft.jumps draft.code = .ok code ∧ draft.linkFunctions = .ok items ∧
          draft.resolveOr draft.entry 0 = .ok entry ∧
          draft.resolveOr draft.stop draft.code.size = .ok stop := by
    rw [mapError_eq_ok_iff, addresses]
    simp [bind_eq_ok_iff, pure, Except.pure]
  constructor
  · intro links
    obtain ⟨⟨code, items, entry, stop⟩, parts, links⟩ := bind_eq_ok_iff.mp links
    obtain ⟨jumps, functions, first, last⟩ := addressed.mp parts
    change (if stop < entry then _ else _) = _ at links
    split at links
    · cases links
    · case isFalse ordered =>
      cases links
      exact ⟨entry, stop, jumps, functions, first, last, Nat.le_of_not_lt ordered, rfl, rfl⟩
  · rintro ⟨entry, stop, jumps, functions, first, last, ordered, isStart, isStop⟩
    refine bind_eq_ok_iff.mpr ⟨_, addressed.mpr ⟨jumps, functions, first, last⟩, ?_⟩
    show (if stop < entry then _ else _) = _
    rw [if_neg (Nat.not_lt.mpr ordered), ← isStart, ← isStop]
    rfl

end Draft

end Assembly

/-- A program as assembly gives it: its instructions are `Instruction.Assembled`, its functions are
`Declared` by their uses, and its bounds and entries are addresses. -/
structure Program.Assembled (program : Program) : Prop where
  code : ∀ instruction ∈ program.code.toList, instruction.Assembled
  declared : Declared program.items.toList (functionsUsed program.code.toList)
  entries : ∀ declaration ∈ program.items.toList, ∃ address ≤ program.code.size,
    declaration.entry = Int64.ofNat address
  bounds : ∃ start stop, start ≤ stop ∧ stop ≤ program.code.size ∧
    program.start = Int64.ofNat start ∧ program.stop = Int64.ofNat stop

namespace Assembly

theorem Draft.assembled_of_link {draft : Draft} {program : Program} (sound : draft.Sound)
    (links : draft.link = .ok program) :
    program.Assembled ∧ program.code.size = draft.code.size := by
  obtain ⟨entry, stop, jumps, functions, first, last, ordered, isStart, isStop⟩ :=
    link_eq_ok_iff.mp links
  have linkable : Linkable draft.jumps draft.code := by
    refine ⟨sound.code, fun jump member instruction found => ?_⟩
    obtain ⟨other, there, isJump⟩ := sound.jumps jump member
    rw [found] at there
    cases there
    exact isJump
  obtain ⟨assembled, size, used⟩ := linkJumps_keeps linkable jumps
  obtain ⟨same, entries⟩ := linkFunctions_keeps sound functions
  have bound := le_of_resolveOr sound (Nat.le_refl _) last
  refine ⟨?_, size⟩
  exact {
    code := assembled
    declared := used.symm ▸ sound.declared.transfer same
    entries := size.symm ▸ entries
    bounds := ⟨entry, stop, ordered, size.symm ▸ bound, isStart, isStop⟩ }

theorem lexed_of_mem_lines {source : Text} :
    ∀ line ∈ tokenLinesFrom [] (tokens source), ∀ token ∈ line, token.Lexed :=
  fun line member token among =>
    lexed_of_mem_tokens token (mem_of_mem_tokenLinesFrom line member token among)

theorem assemble_eq_ok_iff {source : Text} {program : Program} :
    assemble source = .ok program ↔
      ∃ draft, readLines {} (tokenLinesFrom [] (tokens source)) = .ok draft ∧
        draft.link = .ok program := by
  unfold assemble
  simp only [bind_eq_ok_iff, mapError_eq_ok_iff]

/-- A source that `assemble` accepts is read to a `Sound` draft, which is linked. -/
theorem exists_draft_of_assemble {source : Text} {program : Program}
    (assembles : assemble source = .ok program) :
    ∃ draft, readLines {} (tokenLinesFrom [] (tokens source)) = .ok draft ∧ draft.Sound ∧
      draft.link = .ok program := by
  obtain ⟨draft, read, links⟩ := assemble_eq_ok_iff.mp assembles
  exact ⟨draft, read, sound_of_readLines Draft.sound_empty lexed_of_mem_lines read, links⟩

theorem assembled_of_assemble {source : Text} {program : Program}
    (assembles : assemble source = .ok program) : program.Assembled := by
  obtain ⟨draft, -, sound, links⟩ := exists_draft_of_assemble assembles
  exact (Draft.assembled_of_link sound links).1

end Assembly

end ScriptEngine
