/-
This file says once what a run can do to memory. There are eight elementary changes, and
every operation on memory that an instruction or a native function performs is a sequence of
them. A cell only ever comes into a property table or an array in the same change that makes
it, and then it is writable; a cell that is already there changes only if it is writable.
-/

import Mathlib.Logic.Relation
import ScriptEngine.Machine.Native

namespace ScriptEngine

open Relation

namespace Heap

/-! ### Elementary changes -/

/-- The identities of as many cells in a row. -/
def idsFrom (start count : Nat) : Array CellId :=
  (Array.range count).map fun position => ⟨start + position⟩

/-- One elementary change of memory. -/
inductive Change : Heap → Heap → Prop where
  /-- A cell is made. -/
  | cell (heap : Heap) (cell : Cell) :
    Change heap { heap with cells := heap.cells.push cell }
  /-- A writable cell takes another content. -/
  | write (heap : Heap) (id : CellId) (content : Content) (writable : heap.writable id = true) :
    Change heap (setContent id content heap).2
  /-- An object without properties is made. -/
  | object (heap : Heap) : Change heap (newObject heap).2
  /-- A function without properties is made. -/
  | function (heap : Heap) (body : FunctionBody) (bare : body.properties = {}) :
    Change heap (newFunction body heap).2
  /-- An array is made together with its elements. -/
  | array (heap : Heap) (cells : Array Cell) (writable : ∀ cell ∈ cells, cell.readOnly = false) :
    Change heap
      (newArray (idsFrom heap.cells.size cells.size)
        { heap with cells := heap.cells ++ cells }).2
  /-- A cell is made and put under a name of an object, a function or an array. -/
  | property (heap : Heap) (owner : Content) (name : Text) (cell : Cell)
    (writable : cell.readOnly = false) :
    Change heap
      (modifyProperties owner (fun table => table.insert name ⟨heap.cells.size⟩)
        { heap with cells := heap.cells.push cell }).2
  /-- An array gets longer. -/
  | growth (heap : Heap) (id : ArrayId) (size : Nat) : Change heap (growArray id size heap).2
  /-- A cell is made and put at a position of an array. -/
  | element (heap : Heap) (id : ArrayId) (position : Nat) (cell : Cell)
    (writable : cell.readOnly = false) :
    Change heap
      (assignElement id position ⟨heap.cells.size⟩
        { heap with cells := heap.cells.push cell }).2

/-! ### Writing -/

theorem cell_setContent_other {target cell : CellId} (other : target ≠ cell) (content : Content)
    (heap : Heap) : (setContent target content heap).2.cell cell = heap.cell cell := by
  have apart : target.index ≠ cell.index := fun same => other (congrArg CellId.mk same)
  change (heap.cells.setIfInBounds target.index _).getD cell.index {} =
    heap.cells.getD cell.index {}
  rw [Array.getD_eq_getD_getElem?, Array.getD_eq_getD_getElem?,
    Array.getElem?_setIfInBounds_ne apart]

/-- A write with `setContent` leaves the mark of the cell as it is. -/
theorem cell_setContent_self {target : CellId} {heap : Heap}
    (present : target.index < heap.cells.size) (content : Content) :
    (setContent target content heap).2.cell target = { heap.cell target with content } := by
  change (heap.cells.setIfInBounds target.index _).getD target.index {} = _
  rw [Array.getD_eq_getD_getElem?, Array.getElem?_setIfInBounds_self, if_pos present]
  rfl

/-! ### Functions -/

/-- Every function is there afterwards, and the same but for its properties. -/
def KeepsFunctions (before after : Heap) : Prop :=
  ∀ (index : Nat) (body : FunctionBody), before.functions[index]? = some body →
    ∃ properties, after.functions[index]? = some { body with properties }

namespace KeepsFunctions

variable {before middle after : Heap}

theorem of_same (same : after.functions = before.functions) : before.KeepsFunctions after := by
  intro index body present
  rw [same]
  exact ⟨body.properties, present⟩

theorem trans (first : before.KeepsFunctions middle) (second : middle.KeepsFunctions after) :
    before.KeepsFunctions after := by
  intro index body present
  obtain ⟨properties, present⟩ := first index body present
  exact second index { body with properties } present

theorem push (heap : Heap) (made : FunctionBody) :
    heap.KeepsFunctions { heap with functions := heap.functions.push made } := by
  intro index body present
  have inside := (Array.getElem?_eq_some_iff.mp present).1
  exact ⟨body.properties, (Array.getElem?_push_lt inside).trans
    (Array.getElem?_eq_getElem inside ▸ present)⟩

theorem modifyProperties (heap : Heap) (owner : Content) (change : Table → Table) :
    heap.KeepsFunctions (modifyProperties owner change heap).2 := by
  cases owner with
  | function id =>
    intro index body present
    change ∃ properties, (heap.functions.modify id.index fun body =>
      { body with properties := change body.properties })[index]? = some { body with properties }
    rw [Array.getElem?_modify, present]
    by_cases same : id.index = index
    · exact ⟨change body.properties, if_pos same⟩
    · exact ⟨body.properties, if_neg same⟩
  | null | undefined | number | text | object | array => exact of_same rfl

end KeepsFunctions

theorem Change.keepsFunctions {before after : Heap} (change : Change before after) :
    before.KeepsFunctions after := by
  cases change with
  | cell | write | object | array | growth | element => exact .of_same rfl
  | function body => exact .push before body
  | property owner name cell =>
    exact KeepsFunctions.modifyProperties { before with cells := before.cells.push cell } owner _

/-- No `Change` of memory changes a function but for its properties. -/
theorem keepsFunctions_of_changes {before after : Heap}
    (changes : ReflTransGen Change before after) : before.KeepsFunctions after := by
  induction changes with
  | refl => exact .of_same rfl
  | tail _ change inductionHypothesis => exact inductionHypothesis.trans change.keepsFunctions

/-! ### Operations -/

/-- An operation on memory is a sequence of elementary changes. -/
def Changes {Result : Type} (operation : StateM Heap Result) : Prop :=
  ∀ heap, ReflTransGen Change heap (operation heap).2

/-! ### Sequences -/

section Sequences

variable {Result Next : Type}

theorem changes_pure (result : Result) : Changes (pure result) :=
  fun _ => .refl

theorem changes_bind {operation : StateM Heap Result} {next : Result → StateM Heap Next}
    (first : Changes operation) (second : ∀ result, Changes (next result)) :
    Changes (operation >>= next) :=
  fun heap => (first heap).trans (second _ _)

theorem changes_get {next : Heap → StateM Heap Next} (second : ∀ heap, Changes (next heap)) :
    Changes (get >>= next) :=
  fun heap => second heap heap

theorem changes_allocate (cell : Cell) : Changes (allocate cell) :=
  fun heap => .single (.cell heap cell)

theorem changes_allocateContent (content : Content) : Changes (allocateContent content) :=
  changes_allocate { content }

theorem changes_newObject : Changes newObject :=
  fun heap => .single (.object heap)

theorem changes_allocateObject : Changes allocateObject :=
  changes_bind changes_newObject fun _ => changes_allocateContent _

theorem changes_growArray (id : ArrayId) (size : Nat) : Changes (growArray id size) :=
  fun heap => .single (.growth heap id size)

end Sequences

/-! ### Properties -/

/-- `setProperty` puts a new cell under a name of a value by `Changes`. -/
theorem changes_setProperty (target : Content) (name : Text) {cell : Cell}
    (writable : cell.readOnly = false) : Changes (allocate cell >>= setProperty target name) := by
  intro heap
  cases target with
  | object id => exact .single (.property heap (.object id) name cell writable)
  | function id => exact .single (.property heap (.function id) name cell writable)
  | array id =>
    change ReflTransGen Change heap (setProperty (.array id) name ⟨heap.cells.size⟩
      { heap with cells := heap.cells.push cell }).2
    cases index : arrayIndex? name with
    | some position =>
      simp only [setProperty, index]
      exact .single (.element heap id position cell writable)
    | none =>
      simp only [setProperty, index]
      exact .single (.property heap (.array id) name cell writable)
  | null | undefined | number | text => exact .single (.cell heap cell)

theorem changes_slot (owner : Content) (table : Table) (name : Text) :
    Changes (slot owner table name) := by
  unfold slot
  split
  · exact changes_pure _
  · exact fun heap => .single (.property heap owner name {} rfl)

theorem changes_arrayProperty (id : ArrayId) (name : Text) : Changes (arrayProperty id name) := by
  unfold arrayProperty
  split
  · exact changes_bind (changes_growArray id _) fun _ => changes_get fun _ => changes_pure _
  · split
    · exact changes_get fun _ => changes_allocate _
    · exact changes_get fun _ => changes_slot _ _ _

/-- A function that has a prototype is left alone by `prepare`. -/
theorem prepare_of_some {id : FunctionId} {heap : Heap} {prototype : CellId}
    (bound : (heap.function id).properties.get? prototypeName = some prototype) :
    prepare id heap = ((), heap) := by
  unfold prepare
  dsimp only [bind, StateT.bind, get, getThe, MonadStateOf.get, StateT.get, pure]
  rw [bound]
  rfl

/-- A function that has none gets from `prepare` a new object under the name, in a new cell. -/
theorem prepare_of_none {id : FunctionId} {heap : Heap}
    (absent : (heap.function id).properties.get? prototypeName = none) :
    prepare id heap = ((), (modifyProperties (.function id)
      (fun table => table.insert prototypeName ⟨heap.cells.size⟩)
      { (newObject heap).2 with
        cells := heap.cells.push { content := .object ⟨heap.objects.size⟩ } }).2) := by
  unfold prepare
  dsimp only [bind, StateT.bind, get, getThe, MonadStateOf.get, StateT.get, pure]
  rw [absent]
  rfl

theorem changes_prepare (id : FunctionId) : Changes (prepare id) := by
  intro heap
  cases bound : (heap.function id).properties.get? prototypeName with
  | some prototype =>
    rw [prepare_of_some bound]
  | none =>
    rw [prepare_of_none bound]
    exact .tail (.single (.object heap)) (.property _ (.function id) prototypeName _ rfl)

theorem changes_getProperty (content : Content) (name : Text) :
    Changes (getProperty content name) := by
  cases content with
  | object id => exact changes_get fun _ => changes_slot _ _ _
  | array id => exact changes_arrayProperty id name
  | function id =>
    unfold getProperty
    dsimp only
    split
    · exact changes_bind (changes_prepare id) fun _ => changes_get fun _ => changes_slot _ _ _
    · exact changes_get fun _ => changes_slot _ _ _
  | text value => exact changes_allocate _
  | null | undefined | number => exact changes_allocate _

theorem changes_setCopies (target : Content) (entries : List (Text × CellId)) :
    Changes (setCopies target entries) := by
  induction entries with
  | nil => exact changes_pure ()
  | cons entry rest inductionHypothesis =>
    intro heap
    have copied : Changes (allocate { content := heap.content entry.2 } >>=
        setProperty target entry.1) :=
      changes_setProperty target entry.1 rfl
    exact (copied heap).trans (inductionHypothesis _)

theorem changes_copyPrototype (constructor : FunctionId) (target : Content) :
    Changes (copyPrototype constructor target) := by
  refine changes_get fun heap => ?_
  dsimp only
  split
  · split
    · split
      · exact changes_setCopies target _
      · exact changes_pure ()
    · exact changes_pure ()
  · exact changes_pure ()

/-! ### Arrays -/

theorem idsFrom_succ (start count : Nat) :
    (idsFrom start (count + 1)).toList = ⟨start⟩ :: (idsFrom (start + 1) count).toList := by
  simp only [idsFrom, Array.toList_map, Array.toList_range, List.range_succ_eq_map, List.map_cons,
    List.map_map, Nat.add_zero, List.cons.injEq, true_and]
  refine List.map_congr_left fun position _ => ?_
  simp only [Function.comp_apply, CellId.mk.injEq]
  omega

/-- Copying cells one after another makes as many writable cells in a row. -/
theorem mapM_copy (ids : List CellId) (heap : Heap) :
    ∃ cells : Array Cell, cells.size = ids.length ∧ (∀ cell ∈ cells, cell.readOnly = false) ∧
      (ids.mapM copy : StateM Heap (List CellId)) heap =
        ((idsFrom heap.cells.size ids.length).toList,
          { heap with cells := heap.cells ++ cells }) := by
  induction ids generalizing heap with
  | nil => exact ⟨#[], rfl, by simp, by simp [idsFrom]; rfl⟩
  | cons id rest inductionHypothesis =>
    obtain ⟨cells, size, writable, copied⟩ := inductionHypothesis (copy id heap).2
    refine ⟨#[{ content := heap.content id }] ++ cells, by simp [size]; omega, ?_, ?_⟩
    · intro cell member
      rcases Array.mem_append.mp member with first | later
      · rw [Array.mem_singleton.mp first]
      · exact writable cell later
    have step : ((id :: rest).mapM copy : StateM Heap (List CellId)) heap =
        ((copy id heap).1 :: ((rest.mapM copy : StateM Heap (List CellId)) (copy id heap).2).1,
          ((rest.mapM copy : StateM Heap (List CellId)) (copy id heap).2).2) := by
      rw [List.mapM_cons]
      rfl
    have sizeAfter : (copy id heap).2.cells.size = heap.cells.size + 1 := Array.size_push _
    have cellsAfter : (copy id heap).2.cells ++ cells =
        heap.cells ++ (#[{ content := heap.content id }] ++ cells) := by
      rw [← Array.append_assoc, Array.append_singleton]
      rfl
    rw [step, copied, List.length_cons, idsFrom_succ, sizeAfter, cellsAfter]
    rfl

theorem toArray_mapM_copy (ids : List CellId) (heap : Heap) :
    ∃ cells : Array Cell, (∀ cell ∈ cells, cell.readOnly = false) ∧
      (ids.toArray.mapM copy : StateM Heap (Array CellId)) heap =
        (idsFrom heap.cells.size cells.size, { heap with cells := heap.cells ++ cells }) := by
  obtain ⟨cells, size, writable, copied⟩ := mapM_copy ids heap
  refine ⟨cells, writable, ?_⟩
  rw [Array.mapM_eq_mapM_toList, size]
  change ((((ids.mapM copy : StateM Heap (List CellId)) heap).1).toArray,
    ((ids.mapM copy : StateM Heap (List CellId)) heap).2) = _
  rw [copied]

theorem changes_arrayOfCopies (ids : List CellId) : Changes (arrayOfCopies ids) := by
  intro heap
  obtain ⟨cells, writable, copied⟩ := toArray_mapM_copy ids heap
  have made : arrayOfCopies ids heap =
      (newArray (idsFrom heap.cells.size cells.size) >>= fun id => allocateContent (.array id))
        { heap with cells := heap.cells ++ cells } := by
    change (newArray ((ids.toArray.mapM copy : StateM Heap (Array CellId)) heap).1 >>=
      fun id => allocateContent (.array id))
        ((ids.toArray.mapM copy : StateM Heap (Array CellId)) heap).2 = _
    rw [copied]
  rw [made]
  exact .tail (.single (.array heap cells writable)) (.cell _ _)

theorem changes_allocateArray (size : Nat) : Changes (allocateArray size) := by
  intro heap
  have grown := Change.array heap (Array.replicate size {}) fun cell member => by
    rw [(Array.mem_replicate.mp member).2]
  rw [Array.size_replicate] at grown
  exact .tail (.single grown) (.cell _ _)

theorem changes_firstOrUndefined (ids : List CellId) : Changes (firstOrUndefined ids) := by
  cases ids with
  | nil => exact changes_allocateContent _
  | cons id _ => exact changes_pure id

end Heap

end ScriptEngine
