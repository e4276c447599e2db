/-
This file is about values that memory grows under. Cells that are added, and that refer to nothing,
are seen by nobody who was there before them: what an array holds was there already, so the text of
every value is as it was, and so is whatever the operators make of texts and numbers.
-/

import ScriptEngine.Proofs.ReadOnly

namespace ScriptEngine

namespace Heap

variable {before middle after heap : Heap}

/-! ### Cells that are added -/

/-- Cells that refer to nothing have been added, and nothing else has changed. -/
def Extends (before after : Heap) : Prop :=
  ∃ more : Array Cell, (∀ made ∈ more, made.content.isReference = false) ∧
    after = { before with cells := before.cells ++ more }

theorem Extends.refl (heap : Heap) : heap.Extends heap :=
  ⟨#[], fun _ member => absurd member (Array.not_mem_empty _), by rw [Array.append_empty]⟩

theorem Extends.trans (first : before.Extends middle) (second : middle.Extends after) :
    before.Extends after := by
  obtain ⟨more, plain, rfl⟩ := first
  obtain ⟨later, plain', rfl⟩ := second
  refine ⟨more ++ later, fun made member => ?_, by rw [← Array.append_assoc]⟩
  rcases Array.mem_append.mp member with early | late
  · exact plain made early
  · exact plain' made late

/-- Making a cell for a value that refers to nothing `Extends` memory. -/
theorem extends_allocateContent {content : Content} (plain : content.isReference = false)
    (heap : Heap) : heap.Extends (allocateContent content heap).2 := by
  refine ⟨#[{ content }], fun made member => ?_, by rw [Array.append_singleton]; rfl⟩
  rw [Array.mem_singleton.mp member]
  exact plain

theorem Extends.grows (extended : before.Extends after) : before.Grows after := by
  obtain ⟨more, _, rfl⟩ := extended
  refine ⟨?_, Nat.le_refl _, Nat.le_refl _, Nat.le_refl _⟩
  dsimp only
  rw [Array.size_append]
  exact Nat.le_add_right _ _

theorem Extends.cell (extended : before.Extends after) {cell : CellId} (has : before.Has cell) :
    after.cell cell = before.cell cell := by
  obtain ⟨more, _, rfl⟩ := extended
  exact cell_of_has has rfl

theorem Extends.content (extended : before.Extends after) {cell : CellId}
    (has : before.Has cell) : after.content cell = before.content cell :=
  congrArg Cell.content (extended.cell has)

theorem knows_of_plain {content : Content} (plain : content.isReference = false) (heap : Heap) :
    heap.Knows content := by
  cases content with
  | null | undefined | number | text => trivial
  | object | array | function => cases plain

theorem Extends.closed (extended : before.Extends after) (closed : before.Closed) :
    after.Closed := by
  have grows := extended.grows
  obtain ⟨more, plain, rfl⟩ := extended
  refine closed.of_grows grows (fun cell member => ?_) (fun _ => .inl) (fun _ => .inl)
    fun _ => .inl
  rcases Array.mem_append.mp member with old | new
  · exact .inl old
  · exact .inr (knows_of_plain (plain cell new) _)

/-! ### The text of a value -/

theorem Closed.element (closed : heap.Closed) (id : ArrayId) :
    ∀ cell ∈ (heap.array id).elements, heap.Has cell :=
  holds_getD (fun body : ArrayBody => ∀ cell ∈ body.elements, heap.Has cell) closed.elements
    (fun cell member => absurd member (Array.not_mem_empty cell)) id.index

/-- The arrays around a value and the cells of their elements are all that its text depends on, so
that `renderWithin` gives the same in what `Extends` memory. -/
theorem renderWithin_of_extends (closed : before.Closed) (extended : before.Extends after)
    (path : List ArrayId) (content : Content) :
    after.renderWithin path content = before.renderWithin path content := by
  obtain ⟨arrays, functions⟩ : after.arrays = before.arrays ∧
      after.functions = before.functions := by
    obtain ⟨more, _, rfl⟩ := extended
    exact ⟨rfl, rfl⟩
  -- The elements of an array are cells that were there, so the induction is over those of `before`.
  induction path, content using Heap.renderWithin.induct before with
  | case1 | case2 | case3 | case4 | case5 => simp only [renderWithin]
  | case6 path id => simp only [renderWithin, function, functions]
  | case7 path id joined inductionHypothesis =>
    have joined' : id.index < after.arrays.size ∧ id ∉ path := by rwa [arrays]
    have same : after.array id = before.array id := by rw [array, array, arrays]
    rw [renderWithin, renderWithin, dif_pos joined, dif_pos joined', same]
    congr 1
    refine List.map_congr_left fun element member => ?_
    have has := closed.element id element (Array.mem_toList_iff.mp member)
    rw [extended.content has, inductionHypothesis element]
  | case8 path id apart =>
    have apart' : ¬ (id.index < after.arrays.size ∧ id ∉ path) := by rwa [arrays]
    rw [renderWithin, renderWithin, dif_neg apart, dif_neg apart']

theorem render_of_extends (closed : before.Closed) (extended : before.Extends after)
    (content : Content) : after.render content = before.render content :=
  renderWithin_of_extends closed extended [] content

theorem reparse_of_extends (closed : before.Closed) (extended : before.Extends after)
    (content : Content) : after.reparse content = before.reparse content := by
  rw [reparse, reparse, render_of_extends closed extended]

/-- The operators see nothing of memory but texts, and are the same in what `Extends` it. -/
theorem binary_of_extends (closed : before.Closed) (extended : before.Extends after)
    (operator : BinaryOperator) (left right : Content) :
    after.binary operator left right = before.binary operator left right := by
  cases operator with
  | add =>
    simp only [binary, render_of_extends closed extended]
  | sub | mul | div | rem | lt | gt | le | ge | eq | ne | shl | shr | bitOr | bitAnd | or | and
  | xor => rfl

/-! ### Results refer to nothing -/

theorem isReference_reparse (heap : Heap) (content : Content) :
    (heap.reparse content).isReference = false := by
  unfold reparse Content.ofNumeral
  split <;> rfl

theorem isReference_binary (heap : Heap) (operator : BinaryOperator) (left right : Content) :
    (heap.binary operator left right).isReference = false := by
  cases operator with
  | add =>
    unfold binary
    dsimp only
    split <;> rfl
  | sub | mul | div | rem | lt | gt | le | ge | eq | ne | shl | shr | bitOr | bitAnd | or | and
  | xor => rfl

end Heap

end ScriptEngine
