/-
This file is about two values that have no cell under their names in common. Whatever is done to the
names of one of them, the other keeps its names, their order and what is under them: a write through
a slot goes into a cell that only one of the two has, a read makes a new cell at most, and what is
bound to a name from outside is bound as it is, so it must not be a cell that the other one has. The
two stay without a common cell, and so this goes on for as long as one likes, on either side.
-/

import ScriptEngine.Proofs.Closed
import ScriptEngine.Proofs.Holding

namespace ScriptEngine

open Relation

/-- What has names of its own that can be given and taken: an object or a function. -/
def Content.isNamed : Content → Bool
  | .object _ | .function _ => true
  | .null | .undefined | .number _ | .text _ | .array _ => false

namespace Heap

/-! ### What is under the names of a value -/

/-- The names of a value in their order, and what is under them. -/
def listing (heap : Heap) (owner : Content) : List (Text × Content) :=
  (heap.namesOf owner).entries.map fun entry => (entry.1, heap.content entry.2)

/-- A value has a cell under one of its names. -/
def Lists (heap : Heap) (owner : Content) (cell : CellId) : Prop :=
  ∃ entry ∈ (heap.namesOf owner).entries, entry.2 = cell

/-- Two values have no cell under their names in common. -/
structure Apart (heap : Heap) (left right : Content) : Prop where
  distinct : left ≠ right
  hasLeft : heap.HasAll (heap.namesOf left)
  hasRight : heap.HasAll (heap.namesOf right)
  disjoint : ∀ cell, heap.Lists left cell → ¬ heap.Lists right cell

variable {before middle after heap : Heap} {owner other : Content} {cell : CellId} {name : Text}

theorem Apart.symm (apart : heap.Apart owner other) : heap.Apart other owner :=
  ⟨apart.distinct.symm, apart.hasRight, apart.hasLeft,
    fun cell lists lists' => apart.disjoint cell lists' lists⟩

theorem Apart.has_of_lists (apart : heap.Apart owner other) (lists : heap.Lists other cell) :
    heap.Has cell := by
  obtain ⟨entry, member, rfl⟩ := lists
  exact apart.hasRight entry member

/-- A cell that is not there yet is under no name, so that no value `Lists` it. -/
theorem Apart.not_lists_new (apart : heap.Apart owner other) :
    ¬ heap.Lists other ⟨heap.cells.size⟩ :=
  fun lists => Nat.lt_irrefl _ (apart.has_of_lists lists)

/-- A change of memory that has to do with one of two values leaves the other as it is, and leaves
them without a common cell. -/
def Leaves (owner other : Content) (before after : Heap) : Prop :=
  before.Apart owner other →
    after.Apart owner other ∧ after.listing other = before.listing other

theorem Leaves.refl (heap : Heap) : Leaves owner other heap heap :=
  fun apart => ⟨apart, rfl⟩

theorem Leaves.trans (first : Leaves owner other before middle)
    (second : Leaves owner other middle after) : Leaves owner other before after := by
  intro apart
  obtain ⟨apart, same⟩ := first apart
  obtain ⟨apart, same'⟩ := second apart
  exact ⟨apart, same'.trans same⟩

/-- What has to hold of a change that `Leaves` the other value: it keeps its table, its cells keep
their contents, and what the first one gains is not the other's. -/
theorem leaves_of_gained (grows : before.cells.size ≤ after.cells.size)
    (names : before.Apart owner other → after.namesOf other = before.namesOf other)
    (contents : before.Apart owner other → ∀ cell, before.Lists other cell →
      after.content cell = before.content cell)
    (gained : before.Apart owner other → ∀ cell, after.Lists owner cell →
      before.Lists owner cell ∨ after.Has cell ∧ ¬ before.Lists other cell) :
    Leaves owner other before after := by
  intro apart
  have same := names apart
  have lists (cell : CellId) : after.Lists other cell ↔ before.Lists other cell := by
    unfold Lists
    rw [same]
  refine ⟨⟨apart.distinct, fun entry member => ?_, fun entry member => ?_, ?_⟩, ?_⟩
  · rcases gained apart entry.2 ⟨entry, member, rfl⟩ with old | ⟨has, _⟩
    · exact Nat.lt_of_lt_of_le (apart.symm.has_of_lists old) grows
    · exact has
  · rw [same] at member
    exact Nat.lt_of_lt_of_le (apart.hasRight entry member) grows
  · intro cell left right
    have right := (lists cell).mp right
    rcases gained apart cell left with old | ⟨_, others⟩
    · exact apart.disjoint cell old right
    · exact others right
  · unfold listing
    rw [same]
    refine List.map_congr_left fun entry member => ?_
    rw [contents apart entry.2 ⟨entry, member, rfl⟩]

/-! ### Elementary changes -/

theorem content_modifyProperties (owner : Content) (change : Table → Table) (heap : Heap)
    (cell : CellId) : (modifyProperties owner change heap).2.content cell = heap.content cell := by
  unfold Heap.content Heap.cell
  rw [cells_modifyProperties]

theorem namesOf_modifyProperties_other (distinct : owner ≠ other) (change : Table → Table)
    (heap : Heap) : (modifyProperties owner change heap).2.namesOf other = heap.namesOf other := by
  rcases namesOf_modifyProperties owner other change heap with same | ⟨equal, _⟩
  · exact same
  · exact absurd equal.symm distinct

/-- `modifyProperties` on one value `Leaves` the other. -/
theorem leaves_modifyProperties {change : Table → Table}
    (gained : before.Apart owner other → ∀ entry ∈ (change (before.namesOf owner)).entries,
      before.Lists owner entry.2 ∨ before.Has entry.2 ∧ ¬ before.Lists other entry.2) :
    Leaves owner other before (modifyProperties owner change before).2 := by
  refine leaves_of_gained ?_ (fun apart => ?_) (fun apart cell _ => ?_) fun apart cell lists => ?_
  · exact Nat.le_of_eq (congrArg Array.size (cells_modifyProperties ..).symm)
  · exact namesOf_modifyProperties_other apart.distinct change before
  · exact content_modifyProperties owner change before cell
  · obtain ⟨entry, member, rfl⟩ := lists
    unfold Heap.Has
    rw [cells_modifyProperties]
    rcases namesOf_modifyProperties owner owner change before with same | ⟨_, changed⟩
    · rw [same] at member
      exact .inl ⟨entry, member, rfl⟩
    · rw [changed] at member
      exact gained apart entry member

theorem leaves_insert (name : Text)
    (suits : before.Apart owner other → before.Has cell ∧ ¬ before.Lists other cell) :
    Leaves owner other before
      (modifyProperties owner (fun table => table.insert name cell) before).2 := by
  refine leaves_modifyProperties fun apart entry member => ?_
  rcases Table.mem_insertEntry member with old | rfl
  · exact .inl ⟨entry, old, rfl⟩
  · exact .inr (suits apart)

theorem leaves_erase (name : Text) :
    Leaves owner other before
      (modifyProperties owner (fun table => table.erase name) before).2 :=
  leaves_modifyProperties fun _ entry member => .inl ⟨entry, (List.mem_filter.mp member).1, rfl⟩

theorem leaves_push (heap : Heap) (made : Cell) :
    Leaves owner other heap { heap with cells := heap.cells.push made } := by
  refine leaves_of_gained ?_ (fun _ => ?_) (fun apart cell lists => ?_) fun _ cell lists => .inl ?_
  · rw [Array.size_push]
    exact Nat.le_succ _
  · exact namesOf_withCells ..
  · have has := apart.has_of_lists lists
    exact congrArg Cell.content (cell_of_has has Array.append_singleton.symm)
  · unfold Lists at lists ⊢
    rwa [namesOf_withCells] at lists

theorem leaves_newObject (heap : Heap) : Leaves owner other heap (newObject heap).2 := by
  refine leaves_of_gained (Nat.le_refl _) (fun _ => namesOf_newObject heap other)
    (fun _ _ _ => rfl) fun _ cell lists => .inl ?_
  unfold Lists at lists ⊢
  rwa [namesOf_newObject] at lists

/-- A new cell that is put under a name is nobody else's. -/
theorem leaves_make (heap : Heap) (name : Text) (made : Cell) :
    Leaves owner other heap
      (modifyProperties owner (fun table => table.insert name ⟨heap.cells.size⟩)
        { heap with cells := heap.cells.push made }).2 := by
  intro apart
  refine (leaves_push heap made).trans (leaves_insert name fun _ => ⟨?_, ?_⟩) apart
  · unfold Heap.Has
    dsimp only
    rw [Array.size_push]
    exact Nat.lt_succ_self _
  · unfold Lists
    rw [namesOf_withCells]
    exact apart.not_lists_new

theorem leaves_setContent (content : Content)
    (others : before.Apart owner other → ¬ before.Lists other cell) :
    Leaves owner other before (setContent cell content before).2 := by
  refine leaves_of_gained ?_ (fun _ => namesOf_withCells ..) (fun apart other' lists => ?_)
    fun _ cell lists => .inl ?_
  · exact Nat.le_of_eq Array.size_setIfInBounds.symm
  · have different : cell ≠ other' := by
      rintro rfl
      exact others apart lists
    exact congrArg Cell.content (cell_setContent_other different content before)
  · obtain ⟨entry, member, same⟩ := lists
    exact ⟨entry, (namesOf_withCells before _ owner) ▸ member, same⟩

/-! ### Reading a property -/

/-- A read of one value leaves the other, and what is read is not under a name of the other. -/
def Reads (owner other : Content) (operation : StateM Heap CellId) (heap : Heap) : Prop :=
  Leaves owner other heap (operation heap).2 ∧
    (heap.Apart owner other → ¬ (operation heap).2.Lists other (operation heap).1)

theorem reads_slot (owner other : Content) (name : Text) (heap : Heap) :
    Reads owner other (slot owner (heap.namesOf owner) name) heap := by
  unfold slot
  cases found : (heap.namesOf owner).get? name with
  | some cell =>
    refine ⟨.refl heap, fun apart => apart.disjoint cell ?_⟩
    exact Table.mem_of_get? found
  | none =>
    refine ⟨leaves_make heap name {}, fun apart lists => ?_⟩
    refine apart.not_lists_new ?_
    change (modifyProperties owner (fun table => table.insert name ⟨heap.cells.size⟩)
      { heap with cells := heap.cells.push {} }).2.Lists other ⟨heap.cells.size⟩ at lists
    unfold Lists at lists ⊢
    rwa [namesOf_modifyProperties_other apart.distinct, namesOf_withCells] at lists

theorem leaves_prepare (id : FunctionId) (other : Content) (heap : Heap) :
    Leaves (.function id) other heap (prepare id heap).2 := by
  cases bound : (heap.function id).properties.get? prototypeName with
  | some prototype =>
    rw [prepare_of_some bound]
    exact .refl heap
  | none =>
    rw [prepare_of_none bound]
    exact (leaves_newObject heap).trans (leaves_make (newObject heap).2 prototypeName _)

theorem reads_getProperty (named : owner.isNamed = true) (other : Content) (name : Text)
    (heap : Heap) : Reads owner other (getProperty owner name) heap := by
  cases owner with
  | null | undefined | number | text | array => cases named
  | object id => exact reads_slot (.object id) other name heap
  | function id =>
    unfold getProperty
    dsimp only
    split
    · have prepared := leaves_prepare id other heap
      have found := reads_slot (.function id) other name (prepare id heap).2
      exact ⟨prepared.trans found.1, fun apart => found.2 (prepared apart).1⟩
    · exact reads_slot (.function id) other name heap

/-! ### Operations -/

/-- What can be done to the names of a value. -/
inductive Operation where
  /-- A write through the slot of a name. -/
  | write (name : Text) (content : Content)
  /-- Binding a name to a cell. -/
  | bind (name : Text) (cell : CellId)
  /-- A read, which makes a slot where there is none. -/
  | read (name : Text)
  /-- Taking a name away. -/
  | delete (name : Text)

/-- Does an operation to a value. -/
def Operation.perform (owner : Content) : Operation → StateM Heap Unit
  | .write name content => do setContent (← getProperty owner name) content
  | .bind name cell => do let _ ← setProperty owner name cell
  | .read name => do let _ ← getProperty owner name
  | .delete name => modifyProperties owner fun table => table.erase name

/-- A cell that is bound has been made, and is not under a name of the other value. -/
def Operation.Suits (heap : Heap) (other : Content) : Operation → Prop
  | .bind _ cell => heap.Has cell ∧ ¬ heap.Lists other cell
  | .write _ _ | .read _ | .delete _ => True

/-- Any `Operation` on one value `Leaves` the other. -/
theorem leaves_perform {operation : Operation} (named : owner.isNamed = true)
    (suits : operation.Suits heap other) :
    Leaves owner other heap (operation.perform owner heap).2 := by
  cases operation with
  | write name content =>
    have found := reads_getProperty named other name heap
    intro apart
    exact found.1.trans (leaves_setContent content fun _ => found.2 apart) apart
  | bind name cell =>
    have inserted : Leaves owner other heap
        (modifyProperties owner (fun table => table.insert name cell) heap).2 :=
      leaves_insert name fun _ => suits
    cases owner with
    | null | undefined | number | text | array => cases named
    | object id | function id => exact inserted
  | read name => exact (reads_getProperty named other name heap).1
  | delete name => exact leaves_erase name

/-! ### Sequences -/

/-- Memory has changed, but neither of two values has, nor what is under their names. -/
structure Elsewhere (left right : Content) (before after : Heap) : Prop where
  grows : before.cells.size ≤ after.cells.size
  names : ∀ owner, owner = left ∨ owner = right → after.namesOf owner = before.namesOf owner
  contents : ∀ cell, before.Lists left cell ∨ before.Lists right cell →
    after.content cell = before.content cell

/-- One `Operation` on the first of two values, or something that concerns neither and happens
`Elsewhere`. -/
inductive Operates (owner other : Content) : Heap → Heap → Prop where
  | own {heap : Heap} (operation : Operation) (suits : operation.Suits heap other) :
    Operates owner other heap (operation.perform owner heap).2
  | elsewhere {before after : Heap} (elsewhere : Elsewhere owner other before after) :
    Operates owner other before after

theorem Operates.leaves (named : owner.isNamed = true)
    (operates : Operates owner other before after) : Leaves owner other before after := by
  cases operates with
  | own operation suits => exact leaves_perform named suits
  | elsewhere elsewhere =>
    refine leaves_of_gained elsewhere.grows (fun _ => elsewhere.names other (.inr rfl))
      (fun _ cell lists => elsewhere.contents cell (.inr lists)) fun _ cell lists => .inl ?_
    unfold Lists at lists ⊢
    rwa [elsewhere.names owner (.inl rfl)] at lists

/-- Any number of operations on one value, each of which `Operates`, `Leaves` the other. -/
theorem leaves_of_operations (named : owner.isNamed = true)
    (operations : ReflTransGen (Operates owner other) before after) :
    Leaves owner other before after := by
  induction operations with
  | refl => exact .refl before
  | tail _ operates inductionHypothesis => exact inductionHypothesis.trans (operates.leaves named)

/-- Operations on both values, in any order, leave them `Apart`, without a common cell. -/
theorem apart_of_operations {left right : Content} (leftNamed : left.isNamed = true)
    (rightNamed : right.isNamed = true) (apart : before.Apart left right)
    (operations : ReflTransGen
      (fun heap next => Operates left right heap next ∨ Operates right left heap next)
      before after) : after.Apart left right := by
  induction operations with
  | refl => exact apart
  | tail _ operates inductionHypothesis =>
    rcases operates with operates | operates
    · exact (operates.leaves leftNamed inductionHypothesis).1
    · exact (operates.leaves rightNamed inductionHypothesis.symm).1.symm

/-- Two values are independent: after any operations on both of them, any operations on one of them
leave the other as it is. -/
def Independent (heap : Heap) (left right : Content) : Prop :=
  ∀ middle after : Heap,
    ReflTransGen
      (fun before next => Operates left right before next ∨ Operates right left before next)
      heap middle →
    (ReflTransGen (Operates left right) middle after →
      after.listing right = middle.listing right) ∧
    (ReflTransGen (Operates right left) middle after →
      after.listing left = middle.listing left)

/-- Values that are `Apart`, without a common cell, are `Independent`. -/
theorem Apart.independent {left right : Content} (apart : heap.Apart left right)
    (leftNamed : left.isNamed = true) (rightNamed : right.isNamed = true) :
    heap.Independent left right := by
  intro middle after earlier
  have apart := apart_of_operations leftNamed rightNamed apart earlier
  exact ⟨fun operations => (leaves_of_operations leftNamed operations apart).2,
    fun operations => (leaves_of_operations rightNamed operations apart.symm).2⟩

end Heap

end ScriptEngine
