/-
This file is about arrays that are joined into text, nested, shared and cyclic as they may be. One
rule says what the text of a value is within the arrays that are being joined around it. Marking the
arrays while they are joined finds what the rule says: behind each value the marks are as they were
in front of it, so no value is seen by the values next to it, and the arrays without a mark bound
how deep the joining goes. An array that no way leads back to is joined in full wherever it stands.
-/

import Mathlib
import ScriptEngine.Value.Rendering

namespace ScriptEngine

namespace Heap

variable (heap : Heap)

/-! ### The rule -/

/-- What the texts of values are within the arrays that are being joined, innermost first. An array
that is already being joined has no text, and an element has none that is null or undefined. -/
structure JoinsByPath (rule : List ArrayId → Content → Text) : Prop where
  null : ∀ path, rule path .null = "null"
  undefined : ∀ path, rule path .undefined = "undefined"
  number : ∀ path value, rule path (.number value) = numberText value
  text : ∀ path value, rule path (.text value) = value
  object : ∀ path id, rule path (.object id) = "[object Object]"
  function : ∀ path id, rule path (.function id) = (heap.function id).text
  again : ∀ path id, id ∈ path → rule path (.array id) = []
  joined : ∀ path id, id ∉ path → rule path (.array id) =
    Text.join "," ((heap.array id).elements.toList.map fun element =>
      if (heap.content element).isNullish then [] else rule (id :: path) (heap.content element))

variable {heap : Heap} {path : List ArrayId} {id : ArrayId}

/-- An array out of memory has no elements. -/
theorem elements_of_absent (absent : ¬ id.index < heap.arrays.size) :
    (heap.array id).elements.toList = [] := by
  rw [array, Array.getD_eq_getD_getElem?, Array.getElem?_eq_none (Nat.le_of_not_lt absent)]
  rfl

theorem renderWithin_joined (fresh : id ∉ path) :
    heap.renderWithin path (.array id) =
      Text.join "," ((heap.array id).elements.toList.map fun element =>
        if (heap.content element).isNullish then []
        else heap.renderWithin (id :: path) (heap.content element)) := by
  by_cases present : id.index < heap.arrays.size
  · rw [renderWithin, dif_pos ⟨present, fresh⟩]
  · rw [renderWithin, dif_neg fun both => present both.1, elements_of_absent present]
    rfl

theorem renderWithin_again (member : id ∈ path) : heap.renderWithin path (.array id) = [] := by
  rw [renderWithin, dif_neg fun both => both.2 member]

theorem joinsByPath_renderWithin (heap : Heap) : heap.JoinsByPath heap.renderWithin where
  null _ := by rw [renderWithin]
  undefined _ := by rw [renderWithin]
  number _ _ := by rw [renderWithin]
  text _ _ := by rw [renderWithin]
  object _ _ := by rw [renderWithin]
  function _ _ := by rw [renderWithin]
  again _ _ member := renderWithin_again member
  joined _ _ fresh := renderWithin_joined fresh

/-- The elements of an array are reached with fewer arrays `offPath`. -/
theorem offPath_cons_lt {element : CellId} (member : element ∈ (heap.array id).elements.toList)
    (fresh : id ∉ path) : (heap.offPath (id :: path)).length < (heap.offPath path).length := by
  refine heap.offPath_cons_length_lt path id ?_ fresh
  by_contra absent
  rw [elements_of_absent absent] at member
  cases member

/-- There is one rule that `JoinsByPath`. -/
theorem JoinsByPath.eq {rule other : List ArrayId → Content → Text} (isRule : heap.JoinsByPath rule)
    (isOther : heap.JoinsByPath other) (path : List ArrayId) (content : Content) :
    rule path content = other path content := by
  induction most : (heap.offPath path).length using Nat.strong_induction_on
    generalizing path content with
  | _ count ih =>
    subst most
    cases content with
    | null => rw [isRule.null, isOther.null]
    | undefined => rw [isRule.undefined, isOther.undefined]
    | number value => rw [isRule.number, isOther.number]
    | text value => rw [isRule.text, isOther.text]
    | object id => rw [isRule.object, isOther.object]
    | function id => rw [isRule.function, isOther.function]
    | array id =>
      by_cases member : id ∈ path
      · rw [isRule.again path id member, isOther.again path id member]
      · rw [isRule.joined path id member, isOther.joined path id member]
        refine congrArg (Text.join ",") (List.map_congr_left fun element among => ?_)
        rw [ih _ (offPath_cons_lt among member) (id :: path) _ rfl]

/-! ### Marking -/

/-- Where each value leaves the marks as they were, values one after another do. -/
theorem mapM_run_of_forall {source target state : Type} {act : source → StateT state Option target}
    {result : source → target} {marks : state} {list : List source}
    (each : ∀ value ∈ list, (act value).run marks = some (result value, marks)) :
    (list.mapM act).run marks = some (list.map result, marks) := by
  induction list with
  | nil => rfl
  | cons value rest ih =>
    obtain ⟨first, others⟩ := List.forall_mem_cons.mp each
    rw [List.mapM_cons, StateT.run_bind, first, Option.bind_eq_bind, Option.bind_some,
      StateT.run_bind, ih others]
    rfl

/-- Marking, `Heap.renderMarking`, finds the text within the marked arrays and puts all marks back,
if it may go deeper than there are arrays without a mark. -/
theorem renderMarking_run {depth : ℕ} (enough : (heap.offPath path).length < depth)
    (content : Content) : (heap.renderMarking depth content).run path =
      some (heap.renderWithin path content, path) := by
  induction depth generalizing path content with
  | zero => exact absurd enough (Nat.not_lt_zero _)
  | succ depth ih =>
    cases content with
    | null | undefined | number | text | object | function => rw [renderWithin]; rfl
    | array id =>
      by_cases member : id ∈ path
      · rw [renderWithin_again member]
        simp [renderMarking, member]
      · have elements : ∀ element ∈ (heap.array id).elements.toList,
            (if (heap.content element).isNullish then pure []
              else heap.renderMarking depth (heap.content element) :
                StateT (List ArrayId) Option Text).run (id :: path) =
              some (if (heap.content element).isNullish then []
                else heap.renderWithin (id :: path) (heap.content element), id :: path) := by
          intro element among
          have fewer := offPath_cons_lt among member
          split
          · rfl
          · exact ih (fewer.trans_le (Nat.le_of_lt_succ enough)) _
        have parts := mapM_run_of_forall elements
        rw [renderWithin_joined member]
        simp [renderMarking, member, parts]

/-! ### Ways between arrays -/

/-- An array is an element of another one. -/
def Contains (heap : Heap) (outer inner : ArrayId) : Prop :=
  ∃ element ∈ (heap.array outer).elements.toList, heap.content element = .array inner

/-- A way leads from a value to an array. -/
def Reaches (heap : Heap) (content : Content) (target : ArrayId) : Prop :=
  ∃ id, content = .array id ∧ Relation.ReflTransGen heap.Contains id target

/-- Some way leads from an array back to it. -/
def Cyclic (heap : Heap) (id : ArrayId) : Prop :=
  Relation.TransGen heap.Contains id id

/-- A value is met within the arrays that are being joined when another value is turned into
text. -/
inductive Met (heap : Heap) (root : Content) : List ArrayId → Content → Prop
  | root : Met heap root [] root
  | element {path : List ArrayId} {id : ArrayId} {element : CellId}
      (met : Met heap root path (.array id)) (fresh : id ∉ path)
      (member : element ∈ (heap.array id).elements.toList)
      (shown : (heap.content element).isNullish = false) :
      Met heap root (id :: path) (heap.content element)

theorem Reaches.of_element {element : CellId} {target : ArrayId}
    (member : element ∈ (heap.array id).elements.toList)
    (reaches : heap.Reaches (heap.content element) target) :
    Relation.TransGen heap.Contains id target := by
  obtain ⟨inner, isInner, way⟩ := reaches
  exact .head' ⟨element, member, isInner⟩ way

/-- From the arrays that are being joined ways lead, by `Contains`, to an array that is `Met` within
them. -/
theorem Met.transGen {root : Content} {content : Content} (met : heap.Met root path content)
    {inner : ArrayId} (isInner : content = .array inner) :
    ∀ outer ∈ path, Relation.TransGen heap.Contains outer inner := by
  induction met generalizing inner with
  | root => exact List.forall_mem_nil _
  | @element path id element met fresh member shown ih =>
    have last : heap.Contains id inner := ⟨element, member, isInner⟩
    rw [List.forall_mem_cons]
    exact ⟨.single last, fun outer among => (ih rfl outer among).tail last⟩

/-- `renderWithin` gives a value the same text within two paths on which the same of the arrays are
that a way leads to. -/
theorem renderWithin_congr {other : List ArrayId} {content : Content}
    (same : ∀ target, heap.Reaches content target → (target ∈ path ↔ target ∈ other)) :
    heap.renderWithin path content = heap.renderWithin other content := by
  induction most : (heap.offPath path).length using Nat.strong_induction_on
    generalizing path other content with
  | _ count ih =>
    subst most
    cases content with
    | null | undefined | number | text | object | function => rw [renderWithin, renderWithin]
    | array id =>
      have here := same id ⟨id, rfl, .refl⟩
      by_cases member : id ∈ path
      · rw [renderWithin_again member, renderWithin_again (here.mp member)]
      · rw [renderWithin_joined member, renderWithin_joined (mt here.mpr member)]
        refine congrArg (Text.join ",") (List.map_congr_left fun element among => ?_)
        have inside : ∀ target, heap.Reaches (heap.content element) target →
            (target ∈ id :: path ↔ target ∈ id :: other) := by
          intro target reaches
          have further := same target ⟨id, rfl, (reaches.of_element among).to_reflTransGen⟩
          rw [List.mem_cons, List.mem_cons, further]
        rw [ih _ (offPath_cons_lt among member) inside rfl]

/-- An array that is not `Cyclic`, so that no way leads back to it, has within others the text of
its elements, each in full. -/
theorem renderWithin_of_met {root : Content} (met : heap.Met root path (.array id))
    (acyclic : ¬ heap.Cyclic id) :
    heap.renderWithin path (.array id) =
      Text.join "," ((heap.array id).elements.toList.map fun element =>
        if (heap.content element).isNullish then [] else heap.text element) := by
  have outer := met.transGen rfl
  have fresh : id ∉ path := fun member => acyclic (outer id member)
  rw [renderWithin_joined fresh]
  refine congrArg (Text.join ",") (List.map_congr_left fun element among => ?_)
  have apart : ∀ target, heap.Reaches (heap.content element) target →
      (target ∈ id :: path ↔ target ∈ ([] : List ArrayId)) := by
    intro target reaches
    have way := reaches.of_element among
    refine iff_of_false ?_ List.not_mem_nil
    rw [List.mem_cons, not_or]
    refine ⟨fun same => acyclic (same ▸ way), fun member => acyclic ?_⟩
    exact way.trans (outer target member)
  rw [renderWithin_congr apart]
  rfl

/-! ### The text of a cell -/

/-- There is one rule that `Heap.JoinsByPath` for the texts of values within arrays that are being
joined, and marking, `Heap.renderMarking`, finds what it says: for values one after another,
whatever was found in front of each, and for what a cell holds, with no more nested calls than there
are arrays and one. An array that is not `Heap.Cyclic`, so that no way leads back to it, is joined
in full wherever it is `Heap.Met`. -/
theorem renderMarking_byPath (heap : Heap) :
    ∃ rule, heap.JoinsByPath rule ∧ (∀ other, heap.JoinsByPath other → other = rule) ∧
      (∀ path depth, (heap.offPath path).length < depth → ∀ contents : List Content,
        (contents.mapM (heap.renderMarking depth)).run path =
          some (contents.map (rule path), path)) ∧
      (∀ cell, (heap.renderMarking (heap.arrays.size + 1) (heap.content cell)).run [] =
          some (heap.text cell, []) ∧
        heap.text cell = rule [] (heap.content cell)) ∧
      ∀ root path id, heap.Met root path (.array id) → ¬ heap.Cyclic id →
        rule path (.array id) =
          Text.join "," ((heap.array id).elements.toList.map fun element =>
            if (heap.content element).isNullish then [] else heap.text element) := by
  refine ⟨heap.renderWithin, joinsByPath_renderWithin heap, ?_, ?_, ?_, ?_⟩
  · intro other isOther
    funext path content
    exact isOther.eq (joinsByPath_renderWithin heap) path content
  · intro path depth enough contents
    exact mapM_run_of_forall fun content _ => renderMarking_run enough content
  · intro cell
    have enough : (heap.offPath []).length < heap.arrays.size + 1 := by
      rw [Nat.lt_succ_iff, ← List.length_range (n := heap.arrays.size)]
      exact List.length_filter_le ..
    exact ⟨renderMarking_run enough _, rfl⟩
  · intro root path id met acyclic
    exact renderWithin_of_met met acyclic

/-- Two arrays that hold each other, and one that holds a third twice. -/
def knotted : Heap where
  cells := #[{ content := .array ⟨0⟩ }, { content := .array ⟨1⟩ }, { content := .array ⟨2⟩ },
    { content := .array ⟨3⟩ }, { content := .number 1 }, { content := .text "x" }]
  arrays := #[{ elements := #[⟨1⟩, ⟨4⟩] }, { elements := #[⟨0⟩, ⟨5⟩] },
    { elements := #[⟨3⟩, ⟨3⟩] }, { elements := #[⟨5⟩] }]

/-- Of two arrays in the memory `knotted` that hold each other the inner one has no text, and an
array that another one holds twice is joined both times. -/
theorem renderMarking_knotted :
    (knotted.offPath [⟨2⟩]).length < 4 ∧ knotted.Met (.array ⟨2⟩) [⟨2⟩] (.array ⟨3⟩) ∧
      ¬ knotted.Cyclic ⟨3⟩ ∧
      ([Content.array ⟨3⟩, .array ⟨3⟩].mapM (knotted.renderMarking 4)).run [⟨2⟩] =
        some ([Text.ofString "x", Text.ofString "x"], [⟨2⟩]) ∧
      knotted.text ⟨0⟩ = Text.ofString ",x,1" := by
  obtain ⟨rule, -, -, marking, cells, full⟩ := renderMarking_byPath knotted
  have enough : (knotted.offPath [⟨2⟩]).length < 4 := by decide
  have met : knotted.Met (.array ⟨2⟩) [⟨2⟩] (.array ⟨3⟩) :=
    .element .root List.not_mem_nil
      (show (⟨3⟩ : CellId) ∈ (knotted.array ⟨2⟩).elements.toList by decide) rfl
  have acyclic : ¬ knotted.Cyclic ⟨3⟩ := by
    intro cyclic
    obtain ⟨inner, ⟨element, member, isInner⟩, -⟩ := Relation.TransGen.head'_iff.mp cyclic
    obtain rfl : element = ⟨5⟩ := List.mem_singleton.mp member
    cases isInner
  have inFull : rule [⟨2⟩] (.array ⟨3⟩) = Text.ofString "x" := by
    rw [full _ _ _ met acyclic]
    show Text.join "," [knotted.renderWithin [] (.text "x")] = Text.ofString "x"
    rw [renderWithin]
    rfl
  have both := marking [⟨2⟩] 4 enough [.array ⟨3⟩, .array ⟨3⟩]
  have knot : (knotted.renderMarking 5 (.array ⟨0⟩)).run [] =
      some (Text.ofString ",x,1", []) := rfl
  have found := (cells ⟨0⟩).1.symm.trans knot
  rw [List.map_cons, List.map_singleton, inFull] at both
  exact ⟨enough, met, acyclic, both, (Prod.mk.inj (Option.some.inj found)).1⟩

end Heap

end ScriptEngine
