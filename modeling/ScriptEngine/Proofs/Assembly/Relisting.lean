/-
This file says what a listing changes in a program. A function keeps its name if it is an
identifier that no earlier function is listed under, and else gets one that is; a name operand that
would not read back as a name becomes a text. Nothing else changes, and a program that was listed
once does not change again.
-/

import Mathlib
import ScriptEngine.Assembly.Listing
import ScriptEngine.Proofs.Assembly.Drafting
import ScriptEngine.Proofs.Text.Numerals

namespace ScriptEngine

open Text (chars ofChars isDecimalDigit)

namespace Text

theorem chars_of_ascii {text : Text} (ascii : ∀ byte ∈ text, byte < 128) :
    chars text = asciiChars text := by
  have read := chars_ofChars (asciiChars text)
  rwa [ofChars_asciiChars ascii] at read

end Text

namespace Assembly

/-! ### Identifiers -/

theorem isIdentifierChar_digit : ∀ byte : UInt8, Number.Decimal.isDigit byte = true →
    isDecimalDigit (Char.ofNat byte.toNat) = true := by
  decide +kernel

theorem lt_of_isDigit {byte : UInt8} (digit : Number.Decimal.isDigit byte = true) : byte < 128 := by
  simp only [Number.Decimal.isDigit, Bool.and_eq_true, decide_eq_true_eq] at digit
  exact UInt8.lt_of_le_of_lt digit.2 (by decide)

theorem of_isIdentifier {text : Text} (identifier : isIdentifier text = true) :
    text ≠ Text.ofString "func" ∧ isWord (chars text) = true ∧
      ∃ char rest, chars text = char :: rest ∧ char ≠ '.' := by
  unfold isIdentifier at identifier
  split at identifier
  · cases identifier
  · case h_2 char rest split =>
    simp only [Bool.and_eq_true, decide_eq_true_eq, Bool.not_eq_true'] at identifier
    obtain ⟨⟨⟨⟨⟨notFunc, notDot⟩, notDigit⟩, notMinus⟩, notPlus⟩, all⟩ := identifier
    refine ⟨notFunc, ?_, char, rest, split, notDot⟩
    rw [split, isWord, all, notDigit]
    simp [notMinus, notPlus]

theorem isWord_of_isIdentifier {text : Text} (identifier : isIdentifier text = true) :
    isWord (chars text) = true :=
  (of_isIdentifier identifier).2.1

theorem ne_nil_of_isIdentifier {text : Text} (identifier : isIdentifier text = true) :
    text ≠ [] := by
  rintro rfl
  cases identifier

/-- A number behind an identifier makes another one. -/
theorem isIdentifier_numbered {base : Text} (identifier : isIdentifier base = true) (number : ℕ) :
    isIdentifier (base ++ 95 :: Text.ofNat number) = true := by
  have word := isWord_of_isIdentifier identifier
  have written := ofChars_chars_of_identifier (isIdentifierChar_of_isWord word)
  have digits : ∀ byte ∈ Text.ofNat number, Number.Decimal.isDigit byte = true :=
    Text.isDigit_of_mem_ofNat
  have ascii : ∀ byte ∈ (95 :: Text.ofNat number : Text), byte < 128 :=
    List.forall_mem_cons.mpr ⟨by decide, fun byte member => lt_of_isDigit (digits byte member)⟩
  have suffix : ∀ char ∈ Text.asciiChars (95 :: Text.ofNat number),
      isIdentifierChar char = true := by
    refine List.forall_mem_map.mpr (List.forall_mem_cons.mpr ⟨by decide, ?_⟩)
    intro byte member
    exact isIdentifierChar_of_isDecimalDigit (isIdentifierChar_digit byte (digits byte member))
  have other : base ++ 95 :: Text.ofNat number ≠ Text.ofString "func" := by
    intro same
    have member : (95 : UInt8) ∈ Text.ofString "func" := by simp [← same]
    exact absurd member (by decide)
  unfold isIdentifier at identifier ⊢
  rw [Text.chars_append_of_written written, Text.chars_of_ascii ascii]
  split at identifier
  · cases identifier
  · case h_2 char rest split =>
    simp only [Bool.and_eq_true, decide_eq_true_eq, Bool.not_eq_true',
      List.all_eq_true] at identifier
    obtain ⟨⟨⟨⟨⟨-, notDot⟩, notDigit⟩, notMinus⟩, notPlus⟩, all⟩ := identifier
    rw [split, List.cons_append]
    simp only [Bool.and_eq_true, decide_eq_true_eq, Bool.not_eq_true', List.all_eq_true]
    refine ⟨⟨⟨⟨⟨other, notDot⟩, notDigit⟩, notMinus⟩, notPlus⟩, ?_⟩
    rw [← List.cons_append]
    exact List.forall_mem_append.mpr ⟨all, suffix⟩

/-! ### Fresh names -/

theorem mem_nameCandidates {base name : Text} {count : ℕ} :
    name ∈ nameCandidates base count ↔
      name = base ∨ ∃ index < count, name = base ++ 95 :: Text.ofNat (index + 2) := by
  simp [nameCandidates, eq_comm]

theorem nodup_nameCandidates (base : Text) (count : ℕ) : (nameCandidates base count).Nodup := by
  refine List.nodup_cons.mpr ⟨?_, ?_⟩
  · simp
  · refine List.Nodup.map (fun first second same => ?_) List.nodup_range
    have numerals : Text.ofNat (first + 2) = Text.ofNat (second + 2) := by simpa using same
    have values := congrArg Number.Decimal.digitsValue numerals
    rw [Text.digitsValue_ofNat, Text.digitsValue_ofNat] at values
    exact Nat.add_right_cancel values

theorem exists_fresh (used : List Text) (base : Text) :
    ∃ name ∈ nameCandidates base used.length, name ∉ used := by
  by_contra none
  push Not at none
  have small := (List.subperm_of_subset (nodup_nameCandidates base used.length) none).length_le
  simp [nameCandidates] at small

/-- The name that `freshName` finds is a candidate, and not in use. -/
theorem freshName_spec (used : List Text) (base : Text) :
    freshName used base ∈ nameCandidates base used.length ∧ freshName used base ∉ used := by
  obtain ⟨name, candidate, fresh⟩ := exists_fresh used base
  cases found : (nameCandidates base used.length).find? fun name => name ∉ used with
  | none => exact absurd (by simpa using fresh) (List.find?_eq_none.mp found name candidate)
  | some first =>
    unfold freshName
    rw [found, Option.getD_some]
    exact ⟨List.mem_of_find?_eq_some found, by simpa using List.find?_some found⟩

theorem freshName_of_not_mem {used : List Text} {base : Text} (fresh : base ∉ used) :
    freshName used base = base := by
  unfold freshName nameCandidates
  rw [List.find?_cons_of_pos (by simpa using fresh), Option.getD_some]

/-- The name from which a listed name is made. -/
def baseName (name : Text) : Text := if isIdentifier name then name else Text.ofString "fn"

theorem isIdentifier_baseName (name : Text) : isIdentifier (baseName name) = true := by
  unfold baseName
  split
  · assumption
  · decide

theorem isIdentifier_freshName (used : List Text) (name : Text) :
    isIdentifier (freshName used (baseName name)) = true := by
  rcases mem_nameCandidates.mp (freshName_spec used (baseName name)).1 with same | ⟨index, -, same⟩
  · rw [same]
    exact isIdentifier_baseName name
  · rw [same]
    exact isIdentifier_numbered (isIdentifier_baseName name) _

/-! ### Functions as they are listed -/

/-- The names that functions have, without those that have none. -/
def namesUsed (declarations : List Declaration) : List Text :=
  (declarations.map Declaration.name).filter (· ≠ [])

/-- Functions under the names that they are listed with, behind others that use some. -/
def relistedFrom : (used : List Text) → List Declaration → List Declaration
  | _, [] => []
  | used, declaration :: rest =>
    if declaration.name = [] then declaration :: relistedFrom used rest
    else
      let name := freshName used (baseName declaration.name)
      { declaration with name } :: relistedFrom (used ++ [name]) rest

theorem namesUsed_append (first second : List Declaration) :
    namesUsed (first ++ second) = namesUsed first ++ namesUsed second := by
  simp [namesUsed]

theorem relistedFrom_append (used : List Text) (first second : List Declaration) :
    relistedFrom used (first ++ second) =
      relistedFrom used first ++
        relistedFrom (used ++ namesUsed (relistedFrom used first)) second := by
  induction first generalizing used with
  | nil => simp [relistedFrom, namesUsed]
  | cons declaration rest ih =>
    rw [List.cons_append, relistedFrom, relistedFrom]
    split
    · case isTrue unnamed =>
      rw [ih, List.cons_append]
      simp [namesUsed, unnamed]
    · dsimp only
      have filled := ne_nil_of_isIdentifier (isIdentifier_freshName used declaration.name)
      rw [ih, List.cons_append]
      simp [namesUsed, filled]

theorem length_relistedFrom (used : List Text) (declarations : List Declaration) :
    (relistedFrom used declarations).length = declarations.length := by
  induction declarations generalizing used with
  | nil => rfl
  | cons declaration rest ih =>
    rw [relistedFrom]
    split
    · rw [List.length_cons, List.length_cons, ih]
    · rw [List.length_cons, List.length_cons, ih]

/-- A function stays without a name or gets an identifier that is not in use. -/
theorem getElem?_relistedFrom (used : List Text) {declarations : List Declaration} {index : ℕ}
    {declaration : Declaration} (found : declarations[index]? = some declaration) :
    ∃ name, (relistedFrom used declarations)[index]? = some { declaration with name } ∧
      (name = [] ↔ declaration.name = []) ∧
      (name = [] ∨ isIdentifier name = true ∧ name ∉ used) := by
  induction declarations generalizing used index with
  | nil => cases found
  | cons first rest ih =>
    rw [relistedFrom]
    cases index with
    | zero =>
      cases found
      split
      · case isTrue unnamed => exact ⟨[], by simp [← unnamed], by simp [unnamed], .inl rfl⟩
      · case isFalse named =>
        have identifier := isIdentifier_freshName used declaration.name
        have filled := ne_nil_of_isIdentifier identifier
        exact ⟨_, rfl, by simp [named, filled], .inr ⟨identifier, (freshName_spec used _).2⟩⟩
    | succ index =>
      split
      · exact ih used found
      · obtain ⟨name, there, same, kinds⟩ := ih (used ++ [_]) found
        refine ⟨name, there, same, kinds.imp_right fun ⟨identifier, fresh⟩ => ⟨identifier, ?_⟩⟩
        exact fun member => fresh (List.mem_append_left _ member)

theorem exists_of_mem_relistedFrom {used : List Text} {declarations : List Declaration}
    {relisted : Declaration} (member : relisted ∈ relistedFrom used declarations) :
    ∃ declaration ∈ declarations, ∃ name, relisted = { declaration with name } ∧
      (name = [] ∨ isIdentifier name = true ∧ name ∉ used) := by
  obtain ⟨index, there⟩ := List.getElem?_of_mem member
  have bound := (List.getElem?_eq_some_iff.mp there).1
  rw [length_relistedFrom] at bound
  obtain ⟨name, again, -, kinds⟩ :=
    getElem?_relistedFrom used (List.getElem?_eq_getElem bound)
  rw [there] at again
  exact ⟨declarations[index], List.getElem_mem bound, name, Option.some.inj again, kinds⟩

theorem pairwise_relistedFrom (used : List Text) (declarations : List Declaration) :
    (relistedFrom used declarations).Pairwise
      fun first second => first.name = [] ∨ first.name ≠ second.name := by
  induction declarations generalizing used with
  | nil => exact List.Pairwise.nil
  | cons declaration rest ih =>
    rw [relistedFrom]
    split
    · case isTrue unnamed => exact .cons (fun _ _ => .inl unnamed) (ih used)
    · refine .cons (fun other member => .inr ?_) (ih _)
      obtain ⟨-, -, name, rfl, kinds⟩ := exists_of_mem_relistedFrom member
      have filled := ne_nil_of_isIdentifier (isIdentifier_freshName used declaration.name)
      rcases kinds with none | ⟨-, fresh⟩
      · rw [none]
        exact filled
      · intro same
        exact fresh (List.mem_append_right _ (List.mem_singleton.mpr same.symm))

/-- Functions that are `Ordered` are so when they are `relistedFrom` others: those that have names
have some in the listing. -/
theorem ordered_relistedFrom {declarations : List Declaration} {uses : List ℕ}
    (ordered : Ordered declarations uses) :
    Ordered (relistedFrom [] declarations) uses := by
  intro before use after split
  refine (ordered before use after split).imp_right ?_
  rintro ⟨bound, declaration, found, filled⟩
  obtain ⟨name, there, same, -⟩ := getElem?_relistedFrom [] found
  exact ⟨bound, _, there, fun none => filled (same.mp none)⟩

/-- Functions with names that are identifiers and their own are listed as they are. -/
theorem relistedFrom_eq {used : List Text} {declarations : List Declaration}
    (plain : ∀ declaration ∈ declarations, declaration.name = [] ∨
      isIdentifier declaration.name = true ∧ declaration.name ∉ used)
    (distinct : declarations.Pairwise
      fun first second => first.name = [] ∨ first.name ≠ second.name) :
    relistedFrom used declarations = declarations := by
  induction declarations generalizing used with
  | nil => rfl
  | cons declaration rest ih =>
    obtain ⟨here, later⟩ := List.forall_mem_cons.mp plain
    obtain ⟨apart, others⟩ := List.pairwise_cons.mp distinct
    rw [relistedFrom]
    split
    · rw [ih later others]
    · case isFalse named =>
      obtain ⟨identifier, fresh⟩ := here.resolve_left named
      have same : freshName used (baseName declaration.name) = declaration.name := by
        rw [baseName, if_pos identifier, freshName_of_not_mem fresh]
      have behind : ∀ other ∈ rest, other.name = [] ∨
          isIdentifier other.name = true ∧ other.name ∉ used ++ [declaration.name] := by
        intro other member
        refine (later other member).imp_right fun ⟨isName, unused⟩ => ⟨isName, ?_⟩
        have different := (apart other member).resolve_left named
        simp [unused, different.symm]
      dsimp only
      rw [same, ih behind others]

end Assembly

/-! ### Programs as they are listed -/

open Assembly (isIdentifier relistedFrom)

/-- The operand as a listing gives it. -/
def Datum.relisted (datum : Datum ℕ) : Datum ℕ :=
  if datum.kind = .name ∧ isIdentifier datum.text = false then .ofText datum.text else datum

/-- The instruction as a listing gives it. -/
def Instruction.relisted (instruction : Instruction ℕ) : Instruction ℕ :=
  { instruction with datum := instruction.datum.relisted }

/-- The program that the listing of a program denotes. -/
def Program.relisted (program : Program) : Program :=
  { program with
    code := program.code.map Instruction.relisted
    items := (relistedFrom [] program.items.toList).toArray }

/-- A program that is listed as it is. -/
structure Program.Plain (program : Program) : Prop where
  names : ∀ declaration ∈ program.items.toList, declaration.name = [] ∨
    isIdentifier declaration.name = true
  data : ∀ instruction ∈ program.code.toList, instruction.datum.kind = .name →
    isIdentifier instruction.datum.text = true

namespace Datum

variable {datum : Datum ℕ}

theorem kind_relisted (kind : datum.relisted.kind = .name) :
    datum.relisted = datum ∧ isIdentifier datum.text = true := by
  unfold relisted at kind ⊢
  split at kind
  · cases kind
  · case isFalse other =>
    rw [not_and, Bool.not_eq_false] at other
    exact ⟨if_neg (by simpa using other), other kind⟩

theorem relisted_of_ne (other : datum.kind ≠ .name) : datum.relisted = datum :=
  if_neg fun name => other name.1

theorem object_relisted (datum : Datum ℕ) :
    (datum.relisted.kind = .object ↔ datum.kind = .object) ∧
      (datum.kind = .object → datum.relisted = datum) := by
  by_cases name : datum.kind = .name
  · refine ⟨?_, fun object => by simp [name] at object⟩
    unfold relisted
    split <;> simp [name, ofText]
  · rw [relisted_of_ne name]
    exact ⟨Iff.rfl, fun _ => rfl⟩

theorem Suits.relisted {operand : Opcode.OperandClass} (suits : datum.Suits operand) :
    datum.relisted.Suits operand := by
  unfold Datum.relisted
  split
  · case isTrue name =>
    cases operand with
    | none | jump => exact absurd name.1 (by rw [show datum = {} from suits]; decide)
    | name => exact ⟨datum.text, .inr rfl⟩
    | count =>
      obtain ⟨count, rfl⟩ := suits
      cases name.1
    | literal => cases suits <;> cases name.1
  · exact suits

theorem relisted_eq (plain : datum.kind = .name → isIdentifier datum.text = true) :
    datum.relisted = datum := by
  refine if_neg fun ⟨name, other⟩ => ?_
  rw [plain name] at other
  cases other

end Datum

theorem Instruction.function?_relisted (instruction : Instruction ℕ) :
    instruction.relisted.function? = instruction.function? := by
  obtain ⟨kinds, same⟩ := instruction.datum.object_relisted
  unfold function? relisted
  dsimp only
  by_cases object : instruction.datum.kind = .object
  · rw [if_pos object, if_pos (kinds.mpr object), same object]
  · rw [if_neg object, if_neg fun other => object (kinds.mp other)]

theorem functionsUsed_relisted (code : List (Instruction ℕ)) :
    functionsUsed (code.map Instruction.relisted) = functionsUsed code := by
  unfold functionsUsed
  rw [List.filterMap_map]
  exact List.filterMap_congr fun instruction _ => instruction.function?_relisted

namespace Program

variable {program : Program}

theorem plain_relisted (program : Program) : program.relisted.Plain where
  names := by
    intro declaration member
    obtain ⟨-, -, name, rfl, kinds⟩ := Assembly.exists_of_mem_relistedFrom member
    exact kinds.imp_right And.left
  data := by
    intro instruction member kind
    rw [relisted, Array.toList_map] at member
    obtain ⟨before, -, rfl⟩ := List.mem_map.mp member
    obtain ⟨same, identifier⟩ := Datum.kind_relisted kind
    rw [Instruction.relisted, same]
    exact identifier

theorem Assembled.relisted (assembled : program.Assembled) : program.relisted.Assembled where
  code := by
    intro instruction member
    rw [Program.relisted, Array.toList_map] at member
    obtain ⟨before, among, rfl⟩ := List.mem_map.mp member
    obtain ⟨valid, jump, suits⟩ := assembled.code before among
    exact ⟨valid, jump, suits.relisted⟩
  declared := by
    rw [Program.relisted, Array.toList_map, functionsUsed_relisted]
    refine ⟨?_, Assembly.pairwise_relistedFrom [] _, ?_, ?_⟩
    · intro declaration member
      obtain ⟨before, among, name, rfl, -⟩ := Assembly.exists_of_mem_relistedFrom member
      obtain ⟨params, constructs⟩ := assembled.declared.spelt before among
      exact ⟨params, constructs⟩
    · exact Assembly.ordered_relistedFrom assembled.declared.ordered
    · rw [assembled.declared.all, Assembly.length_relistedFrom]
  entries := by
    intro declaration member
    obtain ⟨before, among, name, rfl, -⟩ := Assembly.exists_of_mem_relistedFrom member
    rw [Program.relisted, Array.size_map]
    exact assembled.entries before among
  bounds := by
    rw [Program.relisted, Array.size_map]
    exact assembled.bounds

/-- A program that is `Plain` is not changed by listing it again. -/
theorem Plain.relisted_eq (plain : program.Plain) (assembled : program.Assembled) :
    program.relisted = program := by
  have items : relistedFrom [] program.items.toList = program.items.toList :=
    Assembly.relistedFrom_eq
      (fun declaration member => (plain.names declaration member).imp_right (⟨·, List.not_mem_nil⟩))
      assembled.declared.distinct
  have code : program.code.map Instruction.relisted = program.code := by
    refine Array.toList_inj.mp ?_
    rw [Array.toList_map]
    refine (List.map_congr_left fun instruction member => ?_).trans (List.map_id _)
    unfold Instruction.relisted
    rw [Datum.relisted_eq (plain.data instruction member)]
    rfl
  unfold relisted
  rw [items, code]

end Program

end ScriptEngine
