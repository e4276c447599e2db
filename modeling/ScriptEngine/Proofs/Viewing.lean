/-
This file is about the views of a debugging session. One rule says how a value is shown within the
objects and arrays that are being shown around it: an object as its properties in their order, an
array as its elements in their places, and either as a mark if it is already among those around it.
Showing values one after another with shared marks finds what the rule says, for the marks are put
back behind each, and it ends since there are ever fewer objects and arrays without a mark. A place
of a view is a list of numbers, and what stands there is what was met on the way that these lead
through memory.
-/

import Mathlib
import ScriptEngine.Proofs.Joining
import ScriptEngine.Tap.View

namespace ScriptEngine

/-- The object or array that a value refers to. -/
def Content.container? : Content → Option Container
  | .object id => some (.object id)
  | .array id => some (.array id)
  | _ => none

namespace Heap

variable (heap : Heap)

/-! ### The rule -/

/-- How values are shown within the objects and arrays that are being shown, innermost first. -/
structure ViewsByPath (rule : List Container → Content → View) : Prop where
  null : ∀ path, rule path .null = .none
  undefined : ∀ path, rule path .undefined = .none
  number : ∀ path value, rule path (.number value) = .number value
  text : ∀ path value, rule path (.text value) = .text value
  function : ∀ path id, rule path (.function id) = .text (heap.function id).text
  again : ∀ path content container, content.container? = some container → container ∈ path →
    rule path content = circular
  object : ∀ path id, .object id ∉ path → rule path (.object id) =
    .dictionary ((heap.object id).entries.map fun (name, cell) =>
      (.text name, rule (.object id :: path) (heap.content cell)))
  array : ∀ path id, .array id ∉ path → rule path (.array id) =
    .list ((heap.array id).elements.toList.map fun element =>
      rule (.array id :: path) (heap.content element))

/-- The cells that an object or an array holds, in their order. -/
def inner : Container → List CellId
  | .object id => (heap.object id).entries.map Prod.snd
  | .array id => (heap.array id).elements.toList

/-- The view of an object or an array, given how to show what it holds. -/
def showing (container : Container) (part : Content → View) : View :=
  match container with
  | .object id =>
    .dictionary ((heap.object id).entries.map fun (name, cell) =>
      (.text name, part (heap.content cell)))
  | .array id =>
    .list ((heap.array id).elements.toList.map fun element => part (heap.content element))

variable {heap : Heap} {path : List Container} {content : Content} {container : Container}

theorem showing_congr {part other : Content → View}
    (same : ∀ cell ∈ heap.inner container, part (heap.content cell) = other (heap.content cell)) :
    heap.showing container part = heap.showing container other := by
  cases container with
  | object id =>
    refine congrArg View.dictionary (List.map_congr_left fun entry member => ?_)
    exact congrArg (View.text entry.1, ·) (same _ (List.mem_map_of_mem member))
  | array id => exact congrArg View.list (List.map_congr_left same)

theorem showing_ne_circular (part : Content → View) : heap.showing container part ≠ circular := by
  cases container <;> exact View.noConfusion

/-- What holds a cell is in memory, and so it is reached with fewer `containersOff` the path. -/
theorem containersOff_cons_lt {cell : CellId} (member : cell ∈ heap.inner container)
    (fresh : container ∉ path) :
    (heap.containersOff (container :: path)).length < (heap.containersOff path).length := by
  refine heap.containersOff_cons_length_lt path container ?_ fresh
  cases container with
  | object id =>
    obtain ⟨entry, among, -⟩ := List.mem_map.mp member
    exact object_mem_containers among
  | array id => exact array_mem_containers member

theorem ViewsByPath.shown {rule : List Container → Content → View} (isRule : heap.ViewsByPath rule)
    (isContainer : content.container? = some container) (fresh : container ∉ path) :
    rule path content = heap.showing container (rule (container :: path)) := by
  cases content with
  | null | undefined | number | text | function => cases isContainer
  | object id =>
    cases isContainer
    exact isRule.object path id fresh
  | array id =>
    cases isContainer
    exact isRule.array path id fresh

/-- There is one rule that `ViewsByPath`. -/
theorem ViewsByPath.eq {rule other : List Container → Content → View}
    (isRule : heap.ViewsByPath rule) (isOther : heap.ViewsByPath other) (path : List Container)
    (content : Content) : rule path content = other path content := by
  induction most : (heap.containersOff path).length using Nat.strong_induction_on
    generalizing path content with
  | _ count ih =>
    subst most
    have containers : ∀ container, content.container? = some container →
        rule path content = other path content := by
      intro container isContainer
      by_cases member : container ∈ path
      · rw [isRule.again path content container isContainer member,
          isOther.again path content container isContainer member]
      · rw [isRule.shown isContainer member, isOther.shown isContainer member]
        exact showing_congr fun cell among => ih _ (containersOff_cons_lt among member) _ _ rfl
    cases content with
    | null => rw [isRule.null, isOther.null]
    | undefined => rw [isRule.undefined, isOther.undefined]
    | number value => rw [isRule.number, isOther.number]
    | text value => rw [isRule.text, isOther.text]
    | function id => rw [isRule.function, isOther.function]
    | object id => exact containers _ rfl
    | array id => exact containers _ rfl

theorem viewWithin_again (isContainer : content.container? = some container)
    (member : container ∈ path) : heap.viewWithin path content = circular := by
  cases content with
  | null | undefined | number | text | function => cases isContainer
  | object id | array id =>
    cases isContainer
    rw [viewWithin, dif_pos member]

theorem viewsByPath_viewWithin (heap : Heap) : heap.ViewsByPath heap.viewWithin where
  null _ := by rw [viewWithin]
  undefined _ := by rw [viewWithin]
  number _ _ := by rw [viewWithin]
  text _ _ := by rw [viewWithin]
  function _ _ := by rw [viewWithin]
  again _ _ _ isContainer member := viewWithin_again isContainer member
  object path id fresh := by
    rw [viewWithin, dif_neg fresh]
    exact congrArg View.dictionary (@List.attach_map_val _ _ (heap.object id).entries fun entry =>
      (View.text entry.1, heap.viewWithin (.object id :: path) (heap.content entry.2)))
  array path id fresh := by
    rw [viewWithin, dif_neg fresh]
    exact congrArg View.list (@List.attach_map_val _ _ (heap.array id).elements.toList
      fun element => heap.viewWithin (.array id :: path) (heap.content element))

/-! ### Marking -/

/-- `viewMarking` finds what `viewWithin` does within the marked objects and arrays and puts all
marks back, if it may go deeper than there are objects and arrays without a mark. -/
theorem viewMarking_run {depth : ℕ} (enough : (heap.containersOff path).length < depth)
    (content : Content) : (heap.viewMarking depth content).run path =
      some (heap.viewWithin path content, path) := by
  have isRule := viewsByPath_viewWithin heap
  induction depth generalizing path content with
  | zero => exact absurd enough (Nat.not_lt_zero _)
  | succ depth ih =>
    have parts : ∀ container, container ∉ path → ∀ cell ∈ heap.inner container,
        (heap.viewMarking depth (heap.content cell)).run (container :: path) =
          some (heap.viewWithin (container :: path) (heap.content cell), container :: path) :=
      fun container fresh cell member =>
        ih ((containersOff_cons_lt member fresh).trans_le (Nat.le_of_lt_succ enough)) _
    cases content with
    | null | undefined | number | text | function => rw [viewWithin]; rfl
    | object id =>
      by_cases member : .object id ∈ path
      · rw [viewWithin_again rfl member]
        simp [viewMarking, member]
      · have entries : ∀ entry ∈ (heap.object id).entries,
            (Prod.mk (View.text entry.1) <$>
              heap.viewMarking depth (heap.content entry.2)).run (.object id :: path) =
            some ((View.text entry.1, heap.viewWithin (.object id :: path) (heap.content entry.2)),
              .object id :: path) := by
          intro entry among
          rw [StateT.run_map, parts _ member _ (List.mem_map_of_mem among)]
          rfl
        have found := mapM_run_of_forall entries
        rw [isRule.object path id member]
        simp [viewMarking, member, found]
    | array id =>
      by_cases member : .array id ∈ path
      · rw [viewWithin_again rfl member]
        simp [viewMarking, member]
      · have found := mapM_run_of_forall (parts _ member)
        unfold inner at found
        rw [isRule.array path id member]
        simp [viewMarking, member, found]

end Heap

/-! ### Places in views -/

namespace View

/-- What stands at a place of a list or a dictionary. -/
def part? : View → ℕ → Option View
  | .list items, index => items[index]?
  | .dictionary entries, index => entries[index]?.map Prod.snd
  | _, _ => Option.none

/-- What stands below a view, the place in the outermost part first. -/
def below? (view : View) (position : List ℕ) : Option View :=
  position.foldlM part? view

theorem below?_append (view : View) (position : List ℕ) (index : ℕ) :
    view.below? (position ++ [index]) = (view.below? position).bind (·.part? index) := by
  rw [below?, List.foldlM_append]
  exact Option.bind_congr fun found _ => bind_pure (found.part? index)

end View

namespace Heap

variable {heap : Heap} {path : List Container} {content root : Content} {container : Container}
  {position : List ℕ}

theorem part?_showing (part : Content → View) (index : ℕ) :
    (heap.showing container part).part? index =
      (heap.inner container)[index]?.map fun cell => part (heap.content cell) := by
  cases container with
  | object id =>
    rw [showing, inner, View.part?, List.getElem?_map, List.getElem?_map, Option.map_map,
      Option.map_map]
    rfl
  | array id => exact List.getElem?_map ..

/-- A value is met on a way through memory, within the objects and arrays that the way leads
through. No way leads on from one that it has led through before. -/
inductive Occurs (heap : Heap) (root : Content) : List ℕ → List Container → Content → Prop
  | root : Occurs heap root [] [] root
  | inside {position : List ℕ} {path : List Container} {content : Content} {container : Container}
      {index : ℕ} {cell : CellId} (occurs : Occurs heap root position path content)
      (isContainer : content.container? = some container) (fresh : container ∉ path)
      (there : (heap.inner container)[index]? = some cell) :
      Occurs heap root (position ++ [index]) (container :: path) (heap.content cell)

theorem Occurs.below? (occurs : heap.Occurs root position path content) :
    (heap.viewWithin [] root).below? position = some (heap.viewWithin path content) := by
  induction occurs with
  | root => rfl
  | inside occurs isContainer fresh there ih =>
    rw [View.below?_append, ih, Option.bind_some,
      (viewsByPath_viewWithin heap).shown isContainer fresh, part?_showing, there, Option.map_some]

/-- At each place of a view something `Occurs`. -/
theorem exists_occurs {shown : View}
    (found : (heap.viewWithin [] root).below? position = some shown) :
    ∃ path content, heap.Occurs root position path content ∧
      shown = heap.viewWithin path content := by
  induction position using List.reverseRecOn generalizing shown with
  | nil => exact ⟨[], root, .root, (Option.some.inj found).symm⟩
  | append_singleton position index ih =>
    rw [View.below?_append] at found
    obtain ⟨outer, isOuter, isPart⟩ := Option.bind_eq_some_iff.mp found
    obtain ⟨path, content, occurs, rfl⟩ := ih isOuter
    have isRule := viewsByPath_viewWithin heap
    have inside : ∀ container, content.container? = some container →
        ∃ path content, heap.Occurs root (position ++ [index]) path content ∧
          shown = heap.viewWithin path content := by
      intro container isContainer
      by_cases member : container ∈ path
      · rw [viewWithin_again isContainer member] at isPart
        cases isPart
      · rw [isRule.shown isContainer member, part?_showing] at isPart
        obtain ⟨cell, there, same⟩ := Option.map_eq_some_iff.mp isPart
        exact ⟨_, _, occurs.inside isContainer member there, same.symm⟩
    cases content with
    | null => rw [isRule.null] at isPart; cases isPart
    | undefined => rw [isRule.undefined] at isPart; cases isPart
    | number value => rw [isRule.number] at isPart; cases isPart
    | text value => rw [isRule.text] at isPart; cases isPart
    | function id => rw [isRule.function] at isPart; cases isPart
    | object id => exact inside _ rfl
    | array id => exact inside _ rfl

/-! ### Ways between objects and arrays -/

/-- An object or an array holds another one. -/
def Encloses (heap : Heap) (outer inner : Container) : Prop :=
  ∃ cell ∈ heap.inner outer, (heap.content cell).container? = some inner

/-- A way leads from a value to an object or an array, by `Encloses`. -/
def LeadsTo (heap : Heap) (content : Content) (target : Container) : Prop :=
  ∃ container, content.container? = some container ∧
    Relation.ReflTransGen heap.Encloses container target

/-- Some way, by `Encloses`, leads from an object or an array back to it. -/
def Recurs (heap : Heap) (container : Container) : Prop :=
  Relation.TransGen heap.Encloses container container

theorem LeadsTo.of_inner {cell : CellId} {target : Container}
    (member : cell ∈ heap.inner container) (leads : heap.LeadsTo (heap.content cell) target) :
    Relation.TransGen heap.Encloses container target := by
  obtain ⟨inner, isInner, way⟩ := leads
  exact .head' ⟨cell, member, isInner⟩ way

/-- From what a value `Occurs` within, ways lead to the value, by `Encloses`. -/
theorem Occurs.transGen (occurs : heap.Occurs root position path content)
    {inner : Container} (isInner : content.container? = some inner) :
    ∀ outer ∈ path, Relation.TransGen heap.Encloses outer inner := by
  induction occurs generalizing inner with
  | root => exact List.forall_mem_nil _
  | inside occurs isContainer fresh there ih =>
    have last : heap.Encloses _ inner := ⟨_, List.mem_of_getElem? there, isInner⟩
    rw [List.forall_mem_cons]
    exact ⟨.single last, fun outer among => (ih isContainer outer among).tail last⟩

/-- `viewWithin` shows a value the same within two paths with the same of the objects and arrays on
them that a way leads to. -/
theorem viewWithin_congr {other : List Container}
    (same : ∀ target, heap.LeadsTo content target → (target ∈ path ↔ target ∈ other)) :
    heap.viewWithin path content = heap.viewWithin other content := by
  have isRule := viewsByPath_viewWithin heap
  induction most : (heap.containersOff path).length using Nat.strong_induction_on
    generalizing path other content with
  | _ count ih =>
    subst most
    have containers : ∀ container, content.container? = some container →
        heap.viewWithin path content = heap.viewWithin other content := by
      intro container isContainer
      have here := same container ⟨container, isContainer, .refl⟩
      by_cases member : container ∈ path
      · rw [viewWithin_again isContainer member, viewWithin_again isContainer (here.mp member)]
      · rw [isRule.shown isContainer member, isRule.shown isContainer (mt here.mpr member)]
        refine showing_congr fun cell among => ?_
        refine ih _ (containersOff_cons_lt among member) (fun target leads => ?_) rfl
        have further := same target ⟨container, isContainer, (leads.of_inner among).to_reflTransGen⟩
        rw [List.mem_cons, List.mem_cons, further]
    cases content with
    | null => rw [isRule.null, isRule.null]
    | undefined => rw [isRule.undefined, isRule.undefined]
    | number value => rw [isRule.number, isRule.number]
    | text value => rw [isRule.text, isRule.text]
    | function id => rw [isRule.function, isRule.function]
    | object id => exact containers _ rfl
    | array id => exact containers _ rfl

/-- What does not `Recurs`, so that no way leads back to it, is shown within others as it is on its
own. -/
theorem Occurs.viewWithin_eq (occurs : heap.Occurs root position path content)
    (isContainer : content.container? = some container) (acyclic : ¬ heap.Recurs container) :
    heap.viewWithin path content = heap.viewWithin [] content := by
  refine viewWithin_congr fun target leads => iff_of_false (fun member => ?_) List.not_mem_nil
  obtain ⟨start, isStart, way⟩ := leads
  obtain rfl : container = start := Option.some.inj (isContainer.symm.trans isStart)
  have back := occurs.transGen isContainer target member
  exact acyclic (Relation.TransGen.trans_right way back)

/-! ### The view of a cell -/

/-- There is one rule that `Heap.ViewsByPath` for how values are shown within objects and arrays,
and marking, `Heap.viewMarking`, finds what it says: for values one after another, and for what a
cell holds, with no more nested calls than there are objects and arrays and one. In the view of a
cell there stands at each place what the rule says about the value that `Heap.Occurs` there, and an
object or an array is a mark, `circular`, just where it is met within itself. What does not
`Heap.Recurs`, so that no way leads back to it, is shown the same wherever it is met. -/
theorem viewMarking_byPath (heap : Heap) :
    ∃ rule, heap.ViewsByPath rule ∧ (∀ other, heap.ViewsByPath other → other = rule) ∧
      (∀ path depth, (heap.containersOff path).length < depth → ∀ contents : List Content,
        (contents.mapM (heap.viewMarking depth)).run path =
          some (contents.map (rule path), path)) ∧
      ∀ cell,
        (heap.viewMarking (heap.containers.length + 1) (heap.content cell)).run [] =
          some (heap.view cell, []) ∧
        (∀ position shown, (heap.view cell).below? position = some shown ↔
          ∃ path content, heap.Occurs (heap.content cell) position path content ∧
            shown = rule path content) ∧
        ∀ position path content container,
          heap.Occurs (heap.content cell) position path content →
          content.container? = some container →
            ((heap.view cell).below? position = some circular ↔ container ∈ path) ∧
            (¬ heap.Recurs container →
              (heap.view cell).below? position = some (rule [] content)) := by
  have isRule := viewsByPath_viewWithin heap
  refine ⟨heap.viewWithin, isRule, ?_, ?_, fun cell => ⟨?_, ?_, ?_⟩⟩
  · intro other isOther
    funext path content
    exact isOther.eq isRule path content
  · intro path depth enough contents
    exact mapM_run_of_forall fun content _ => viewMarking_run enough content
  · refine viewMarking_run (Nat.lt_succ_of_le ?_) _
    exact List.length_filter_le ..
  · intro position shown
    refine ⟨exists_occurs, ?_⟩
    rintro ⟨path, content, occurs, rfl⟩
    exact occurs.below?
  · intro position path content container occurs isContainer
    have there : (heap.view cell).below? position = some (heap.viewWithin path content) :=
      occurs.below?
    refine ⟨?_, fun acyclic => ?_⟩
    · rw [there, Option.some_inj]
      refine ⟨fun marked => ?_, viewWithin_again isContainer⟩
      by_contra fresh
      rw [isRule.shown isContainer fresh] at marked
      exact showing_ne_circular _ marked
    · rw [there, occurs.viewWithin_eq isContainer acyclic]

/-- An object and an array that hold each other, and another object that the array holds twice. -/
def tangled : Heap where
  cells := #[{ content := .object ⟨0⟩ }, { content := .array ⟨0⟩ }, { content := .object ⟨1⟩ },
    { content := .text "x" }]
  objects := #[⟨[("a", ⟨1⟩), ("b", ⟨3⟩)]⟩, ⟨[("c", ⟨3⟩)]⟩]
  arrays := #[{ elements := #[⟨0⟩, ⟨2⟩, ⟨2⟩] }]

/-- In the memory `tangled` an object is a mark within the array that it holds, and the other one is
shown twice. -/
theorem viewMarking_tangled :
    let part : View := .dictionary [(.text "c", .text "x")]
    tangled.view ⟨0⟩ =
      .dictionary [(.text "a", .list [circular, part, part]), (.text "b", .text "x")] ∧
    ([Content.object ⟨1⟩, .object ⟨0⟩].mapM (tangled.viewMarking 3)).run [.object ⟨0⟩] =
      some ([part, circular], [.object ⟨0⟩]) ∧
    tangled.Occurs (.object ⟨0⟩) [0, 0] [.array ⟨0⟩, .object ⟨0⟩] (.object ⟨0⟩) ∧
    (tangled.view ⟨0⟩).below? [0, 0] = some circular ∧
    tangled.Occurs (.object ⟨0⟩) [0, 2] [.array ⟨0⟩, .object ⟨0⟩] (.object ⟨1⟩) ∧
    ¬ tangled.Recurs (.object ⟨1⟩) ∧
    (tangled.view ⟨0⟩).below? [0, 2] = some part := by
  intro part
  obtain ⟨rule, isRule, -, marking, cells⟩ := viewMarking_byPath tangled
  obtain ⟨found, -, occurrences⟩ := cells ⟨0⟩
  have inArray : tangled.Occurs (.object ⟨0⟩) [0] [.object ⟨0⟩] (.array ⟨0⟩) :=
    .inside .root rfl List.not_mem_nil (show (tangled.inner (.object ⟨0⟩))[0]? = some ⟨1⟩ from rfl)
  have fresh : Container.array ⟨0⟩ ∉ [Container.object ⟨0⟩] := by decide
  have again : tangled.Occurs (.object ⟨0⟩) [0, 0] [.array ⟨0⟩, .object ⟨0⟩] (.object ⟨0⟩) :=
    .inside inArray rfl fresh (show (tangled.inner (.array ⟨0⟩))[0]? = some ⟨0⟩ from rfl)
  have shared : tangled.Occurs (.object ⟨0⟩) [0, 2] [.array ⟨0⟩, .object ⟨0⟩] (.object ⟨1⟩) :=
    .inside inArray rfl fresh (show (tangled.inner (.array ⟨0⟩))[2]? = some ⟨2⟩ from rfl)
  have acyclic : ¬ tangled.Recurs (.object ⟨1⟩) := by
    intro recurs
    obtain ⟨inner, ⟨cell, member, isInner⟩, -⟩ := Relation.TransGen.head'_iff.mp recurs
    obtain rfl : cell = ⟨3⟩ := List.mem_singleton.mp member
    cases isInner
  have shown : (tangled.viewMarking 4 (.object ⟨0⟩)).run [] = some (.dictionary
      [(.text "a", .list [circular, part, part]), (.text "b", .text "x")], []) := rfl
  have alone : rule [] (.object ⟨1⟩) = part := by
    rw [isRule.object [] ⟨1⟩ List.not_mem_nil]
    exact congrArg (fun text => View.dictionary [(.text "c", text)]) (isRule.text _ _)
  have both := marking [.object ⟨0⟩] 3 (by decide) [.object ⟨1⟩, .object ⟨0⟩]
  refine ⟨(Prod.mk.inj (Option.some.inj (found.symm.trans shown))).1, ?_, again,
    (occurrences _ _ _ _ again rfl).1.mpr (by decide), shared, acyclic, ?_⟩
  · rw [both, List.map_cons, List.map_singleton,
      isRule.again _ (.object ⟨0⟩) (.object ⟨0⟩) rfl (List.mem_singleton_self _),
      isRule.object _ ⟨1⟩ (by decide)]
    exact congrArg (fun text => some ([View.dictionary [(.text "c", text)], circular], _))
      (isRule.text _ _)
  · rw [(occurrences _ _ _ _ shared rfl).2 acyclic, alone]

end Heap

end ScriptEngine
