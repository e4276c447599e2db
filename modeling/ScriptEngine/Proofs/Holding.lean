/-
This file is about slots. A slot is a place where a script finds a cell again: a binding of a
scope, a property of an object, a function or an array, or an element of an array. The slots of
a machine are separate when each holds a cell that has been made and no two hold the same one.
Every act puts only cells into slots that it has made itself, each into a slot of its own, and
so slots stay separate over every move of every run.
-/

import ScriptEngine.Proofs.Acts

namespace ScriptEngine

open Relation

/-! ### Slots -/

/-- A place where a script finds a cell again. -/
inductive Slot where
  /-- A name in the global scope, which is level zero, or in one of the scopes above it. -/
  | binding (level : Nat) (name : Text)
  /-- A name of an object, a function or an array. -/
  | property (owner : Content) (name : Text)
  /-- A position of an array. -/
  | element (array : ArrayId) (position : Nat)
  deriving DecidableEq

/-- The names of a scope, by how many scopes there are below it. -/
def Scopes.level (scopes : Scopes) (level : Nat) : Table :=
  (scopes.globals :: scopes.opened.reverse).getD level {}

/-- The properties of an object, a function or an array; other values have none. -/
def Heap.namesOf (heap : Heap) : Content → Table
  | .object id => heap.object id
  | .function id => (heap.function id).properties
  | .array id => (heap.array id).properties
  | _ => {}

/-- The cell that a slot holds. -/
def Machine.held (machine : Machine) : Slot → Option CellId
  | .binding level name => (machine.scopes.level level).get? name
  | .property owner name => (machine.heap.namesOf owner).get? name
  | .element array position => (machine.heap.array array).elements[position]?

/-! ### What scopes hold -/

namespace Table

/-- A name that is given a cell has that cell; the others keep theirs. -/
theorem get?_insert_cases {table : Table} {name other : Text} {new cell : CellId}
    (found : (table.insert name new).get? other = some cell) :
    table.get? other = some cell ∨ other = name ∧ cell = new := by
  by_cases same : other = name
  · subst same
    rw [get?_insert_self] at found
    cases found
    exact .inr ⟨rfl, rfl⟩
  · rw [get?_insert_other _ _ _ _ same] at found
    exact .inl found

end Table

namespace Scopes

theorem level_push (scopes : Scopes) (level : Nat) :
    scopes.push.level level = scopes.level level := by
  unfold Scopes.level push
  rw [List.reverse_cons, ← List.cons_append, List.getD_eq_getElem?_getD,
    List.getD_eq_getElem?_getD, List.getElem?_append]
  split
  · rfl
  · rename_i beyond
    rw [List.getElem?_eq_none (Nat.le_of_not_lt beyond), List.getElem?_singleton]
    split <;> rfl

/-- Closing scopes takes their names away and leaves the other scopes alone. -/
theorem level_drop (scopes : Scopes) (count level : Nat) :
    Scopes.level { scopes with opened := scopes.opened.drop count } level = scopes.level level ∨
      Scopes.level { scopes with opened := scopes.opened.drop count } level = {} := by
  unfold Scopes.level
  cases level with
  | zero => exact .inl rfl
  | succ level =>
    simp only [List.getD_eq_getElem?_getD, List.getElem?_cons_succ, List.reverse_drop,
      List.getElem?_take]
    split
    · exact .inl rfl
    · exact .inr rfl

theorem level_define (scopes : Scopes) (name : Text) (cell : CellId) (level : Nat) :
    (scopes.define name cell).level level = scopes.level level ∨
      level = 0 ∧ (scopes.define name cell).level level = (scopes.level 0).insert name cell := by
  cases level with
  | zero => exact .inr ⟨rfl, rfl⟩
  | succ level => exact .inl rfl

theorem level_bind (scopes : Scopes) (name : Text) (cell : CellId) (level : Nat) :
    (scopes.bind name cell).level level = scopes.level level ∨
      level = scopes.depth ∧
        (scopes.bind name cell).level level = (scopes.level scopes.depth).insert name cell := by
  unfold bind depth
  cases opened : scopes.opened with
  | nil =>
    cases level with
    | zero => exact .inr ⟨rfl, rfl⟩
    | succ level =>
      left
      simp [Scopes.level, opened]
  | cons inner outer =>
    cases level with
    | zero => exact .inl rfl
    | succ level =>
      simp only [Scopes.level, opened, List.length_cons, List.reverse_cons,
        List.getD_eq_getElem?_getD, List.getElem?_cons_succ, List.getElem?_append,
        List.length_reverse, Nat.add_right_cancel_iff]
      split
      · exact .inl rfl
      · rename_i beyond
        by_cases last : level = outer.length
        · right
          simp [last]
        · left
          rw [List.getElem?_singleton, List.getElem?_singleton, if_neg (by omega),
            if_neg (by omega)]

end Scopes

/-! ### What memory holds -/

namespace Heap

/-- A change of one place is seen there or not at all. -/
theorem getD_modify_cases {Value : Type} (values : Array Value) (index other : Nat)
    (change : Value → Value) (fallback : Value) :
    (values.modify index change).getD other fallback = values.getD other fallback ∨
      index = other ∧
        (values.modify index change).getD other fallback = change (values.getD other fallback) := by
  simp only [Array.getD_eq_getD_getElem?, Array.getElem?_modify]
  split
  · rename_i same
    cases values[other]? with
    | none => exact .inl rfl
    | some value => exact .inr ⟨same, rfl⟩
  · exact .inl rfl

/-- A change that changes no value changes nothing. -/
theorem modify_of_kept {Value : Type} {change : Value → Value}
    (kept : ∀ value, change value = value) (values : Array Value) (index : Nat) :
    values.modify index change = values := by
  apply Array.ext_getElem?
  intro other
  rw [Array.getElem?_modify, funext kept]
  split
  · exact Option.map_id'
  · rfl

/-- A new place whose part is that of an empty one is as good as none. -/
theorem getD_push_alike {Value Part : Type} (part : Value → Part) {value fallback : Value}
    (alike : part value = part fallback) (values : Array Value) (index : Nat) :
    part ((values.push value).getD index fallback) = part (values.getD index fallback) := by
  simp only [Array.getD_eq_getD_getElem?, Array.getElem?_push]
  split
  · rename_i last
    rw [last, Array.getElem?_eq_none (Nat.le_refl _)]
    exact alike
  · rfl

theorem array_modifyArray (id other : ArrayId) (change : ArrayBody → ArrayBody) (heap : Heap) :
    (modifyArray id change heap).2.array other = heap.array other ∨
      id = other ∧ (modifyArray id change heap).2.array other = change (heap.array other) := by
  rcases getD_modify_cases heap.arrays id.index other.index change {} with same | ⟨same, changed⟩
  · exact .inl same
  · exact .inr ⟨congrArg ArrayId.mk same, changed⟩

theorem namesOf_modifyProperties (owner other : Content) (change : Table → Table) (heap : Heap) :
    (modifyProperties owner change heap).2.namesOf other = heap.namesOf other ∨
      other = owner ∧
        (modifyProperties owner change heap).2.namesOf other = change (heap.namesOf owner) := by
  cases owner with
  | object id =>
    cases other with
    | object other =>
      rcases getD_modify_cases heap.objects id.index other.index change {} with
        same | ⟨same, changed⟩
      · exact .inl same
      · obtain rfl : id = other := congrArg ObjectId.mk same
        exact .inr ⟨rfl, changed⟩
    | null | undefined | number | text | array | function => exact .inl rfl
  | function id =>
    cases other with
    | function other =>
      rcases getD_modify_cases heap.functions id.index other.index
        (fun body => { body with properties := change body.properties }) {} with
        same | ⟨same, changed⟩
      · exact .inl (congrArg FunctionBody.properties same)
      · obtain rfl : id = other := congrArg FunctionId.mk same
        exact .inr ⟨rfl, congrArg FunctionBody.properties changed⟩
    | null | undefined | number | text | array | object => exact .inl rfl
  | array id =>
    cases other with
    | array other =>
      rcases array_modifyArray id other
        (fun body => { body with properties := change body.properties }) heap with
        same | ⟨rfl, changed⟩
      · exact .inl (congrArg ArrayBody.properties same)
      · exact .inr ⟨rfl, congrArg ArrayBody.properties changed⟩
    | null | undefined | number | text | object | function => exact .inl rfl
  | null | undefined | number | text => exact .inl rfl

theorem namesOf_withCells (heap : Heap) (cells : Array Cell) (owner : Content) :
    namesOf { heap with cells } owner = heap.namesOf owner := by
  cases owner <;> rfl

theorem cells_modifyProperties (owner : Content) (change : Table → Table) (heap : Heap) :
    (modifyProperties owner change heap).2.cells = heap.cells := by
  cases owner <;> rfl

theorem elements_modifyProperties (owner : Content) (change : Table → Table) (heap : Heap)
    (id : ArrayId) :
    ((modifyProperties owner change heap).2.array id).elements = (heap.array id).elements := by
  cases owner with
  | array owner =>
    rcases array_modifyArray owner id
      (fun body => { body with properties := change body.properties }) heap with same | ⟨_, changed⟩
    · exact congrArg ArrayBody.elements same
    · exact (congrArg ArrayBody.elements changed :)
  | null | undefined | number | text | object | function => rfl

theorem namesOf_newObject (heap : Heap) (owner : Content) :
    (newObject heap).2.namesOf owner = heap.namesOf owner := by
  cases owner with
  | object id => exact getD_push_alike (fun table => table) rfl heap.objects id.index
  | null | undefined | number | text | array | function => rfl

theorem namesOf_newFunction (heap : Heap) (body : FunctionBody) (bare : body.properties = {})
    (owner : Content) : (newFunction body heap).2.namesOf owner = heap.namesOf owner := by
  cases owner with
  | function id =>
    have alike : body.properties = ({} : FunctionBody).properties := bare
    exact getD_push_alike FunctionBody.properties alike heap.functions id.index
  | null | undefined | number | text | array | object => rfl

/-- A change of elements leaves all properties alone. -/
theorem namesOf_modifyArray {id : ArrayId} {change : ArrayBody → ArrayBody}
    (kept : ∀ body, (change body).properties = body.properties) (heap : Heap) (owner : Content) :
    (modifyArray id change heap).2.namesOf owner = heap.namesOf owner := by
  cases owner with
  | array other =>
    rcases array_modifyArray id other change heap with same | ⟨_, changed⟩
    · exact congrArg ArrayBody.properties same
    · exact (congrArg ArrayBody.properties changed).trans (kept _)
  | null | undefined | number | text | object | function => rfl

theorem growArray_eq (id : ArrayId) (size : Nat) (heap : Heap) :
    growArray id size heap =
      modifyArray id
        (fun body =>
          { body with
            elements := body.elements ++
              idsFrom heap.cells.size (size - (heap.array id).elements.size) })
        { heap with
          cells := heap.cells ++ Array.replicate (size - (heap.array id).elements.size) {} } :=
  rfl

theorem assignElement_eq (id : ArrayId) (position : Nat) (cell : CellId) (heap : Heap) :
    assignElement id position cell heap =
      modifyArray id (fun body =>
        { body with elements := body.elements.setIfInBounds position cell })
        (growArray id (position + 1) heap).2 :=
  rfl

theorem namesOf_growArray (id : ArrayId) (size : Nat) (heap : Heap) (owner : Content) :
    (growArray id size heap).2.namesOf owner = heap.namesOf owner := by
  rw [growArray_eq, namesOf_modifyArray]
  · exact namesOf_withCells ..
  · exact fun _ => rfl

theorem namesOf_assignElement (id : ArrayId) (position : Nat) (cell : CellId) (heap : Heap)
    (owner : Content) :
    (assignElement id position cell heap).2.namesOf owner = heap.namesOf owner := by
  rw [assignElement_eq, namesOf_modifyArray]
  · exact namesOf_growArray ..
  · exact fun _ => rfl

theorem namesOf_newArray (elements : Array CellId) (heap : Heap) (owner : Content) :
    (newArray elements heap).2.namesOf owner = heap.namesOf owner := by
  cases owner with
  | array id =>
    have alike : ArrayBody.properties { elements } = ({} : ArrayBody).properties := rfl
    exact getD_push_alike ArrayBody.properties alike heap.arrays id.index
  | null | undefined | number | text | object | function => rfl

theorem getElem?_newArray {elements : Array CellId} {heap : Heap} {id : ArrayId} {position : Nat}
    {cell : CellId}
    (found : ((newArray elements heap).2.array id).elements[position]? = some cell) :
    (heap.array id).elements[position]? = some cell ∨
      id = ⟨heap.arrays.size⟩ ∧ elements[position]? = some cell := by
  change ((heap.arrays.push { elements }).getD id.index {}).elements[position]? = some cell at found
  simp only [Array.getD_eq_getD_getElem?, Array.getElem?_push] at found
  split at found
  · rename_i last
    exact .inr ⟨congrArg ArrayId.mk last, found⟩
  · left
    rw [← found, ← Array.getD_eq_getD_getElem?]
    rfl

theorem getElem?_idsFrom {start count position : Nat} {cell : CellId}
    (found : (idsFrom start count)[position]? = some cell) :
    cell.index = start + position ∧ position < count := by
  unfold idsFrom at found
  rw [Array.getElem?_map, Option.map_eq_some_iff] at found
  obtain ⟨index, at', rfl⟩ := found
  obtain ⟨within, rfl⟩ := Array.getElem?_eq_some_iff.mp at'
  rw [Array.size_range] at within
  rw [Array.getElem_range]
  exact ⟨rfl, within⟩

theorem size_cells_growArray (id : ArrayId) (size : Nat) (heap : Heap) :
    (growArray id size heap).2.cells.size =
      heap.cells.size + (size - (heap.array id).elements.size) := by
  change (heap.cells ++ Array.replicate (size - (heap.array id).elements.size) ({} : Cell)).size = _
  rw [Array.size_append, Array.size_replicate]

/-- No change takes cells away. -/
theorem Change.size_le {before after : Heap} (change : Change before after) :
    before.cells.size ≤ after.cells.size := by
  cases change with
  | cell cell => exact (Array.size_push ..).symm ▸ Nat.le_succ _
  | write id content writable =>
    exact Nat.le_of_eq (Array.size_setIfInBounds ..).symm
  | object | function => exact Nat.le_refl _
  | array cells writable =>
    show _ ≤ (before.cells ++ cells).size
    rw [Array.size_append]
    exact Nat.le_add_right _ _
  | property owner name cell writable =>
    rw [cells_modifyProperties]
    exact (Array.size_push ..).symm ▸ Nat.le_succ _
  | growth id size =>
    rw [size_cells_growArray]
    exact Nat.le_add_right _ _
  | element id position cell writable =>
    have grown := size_cells_growArray id (position + 1)
      { before with cells := before.cells.push cell }
    rw [assignElement_eq]
    show _ ≤ (growArray id (position + 1) _).2.cells.size
    rw [grown, Array.size_push]
    omega

theorem size_le_of_changes {before after : Heap} (changes : ReflTransGen Change before after) :
    before.cells.size ≤ after.cells.size := by
  induction changes with
  | refl => exact Nat.le_refl _
  | tail _ change inductionHypothesis => exact Nat.le_trans inductionHypothesis change.size_le

/-- An array that gets longer by `growArray` gets new cells, each at a position of its own. -/
theorem getElem?_growArray {id other : ArrayId} {size position : Nat} {heap : Heap} {cell : CellId}
    (found : ((growArray id size heap).2.array other).elements[position]? = some cell) :
    (heap.array other).elements[position]? = some cell ∨
      other = id ∧ position = (heap.array id).elements.size + (cell.index - heap.cells.size) ∧
        heap.cells.size ≤ cell.index ∧ cell.index < (growArray id size heap).2.cells.size := by
  have sizes := size_cells_growArray id size heap
  rw [growArray_eq] at found
  rcases array_modifyArray id other _ _ with same | ⟨rfl, changed⟩
  · rw [same] at found
    exact .inl found
  · rw [changed] at found
    change ((heap.array id).elements ++ idsFrom heap.cells.size
      (size - (heap.array id).elements.size))[position]? = some cell at found
    rw [Array.getElem?_append] at found
    split at found
    · exact .inl found
    · obtain ⟨index, within⟩ := getElem?_idsFrom found
      exact .inr ⟨rfl, by omega, by omega, by omega⟩

/-- `assignElement` changes one position of the array that has been made longer. -/
theorem getElem?_assignElement {id other : ArrayId} {place position : Nat} {heap : Heap}
    {new cell : CellId}
    (found : ((assignElement id place new heap).2.array other).elements[position]? = some cell) :
    ((growArray id (place + 1) heap).2.array other).elements[position]? = some cell ∨
      other = id ∧ position = place ∧ cell = new := by
  rw [assignElement_eq] at found
  rcases array_modifyArray id other _ _ with same | ⟨rfl, changed⟩
  · rw [same] at found
    exact .inl found
  · rw [changed, Array.getElem?_setIfInBounds] at found
    split at found
    · rename_i same
      split at found
      · cases found
        exact .inr ⟨rfl, same.symm, rfl⟩
      · cases found
    · exact .inl found

end Heap

/-! ### Separate slots -/

namespace Machine

/-- Every slot holds a cell that has been made, and no two slots have the same cell `held`. -/
structure Separate (machine : Machine) : Prop where
  made : ∀ slot cell, machine.held slot = some cell → cell.index < machine.heap.cells.size
  single : ∀ slot other cell, machine.held slot = some cell → machine.held other = some cell →
    slot = other

/-- What a slot has `held` is in the scopes or in memory. -/
theorem held_congr {before after : Machine}
    (levels : ∀ level, after.scopes.level level = before.scopes.level level)
    (names : ∀ owner, after.heap.namesOf owner = before.heap.namesOf owner)
    (elements : ∀ id, (after.heap.array id).elements = (before.heap.array id).elements)
    (slot : Slot) : after.held slot = before.held slot := by
  cases slot with
  | binding level name => exact congrArg (fun table => table.get? name) (levels level)
  | property owner name => exact congrArg (fun table => table.get? name) (names owner)
  | element array position => exact congrArg (fun cells => cells[position]?) (elements array)

namespace Separate

variable {before after machine : Machine}

/-- Slots stay separate where each cell that comes into a slot is new and has one place to go. -/
theorem of_placed (place : CellId → Slot) (separate : before.Separate)
    (grows : before.heap.cells.size ≤ after.heap.cells.size)
    (placed : ∀ slot cell, after.held slot = some cell → before.held slot = some cell ∨
      slot = place cell ∧ before.heap.cells.size ≤ cell.index ∧
        cell.index < after.heap.cells.size) : after.Separate := by
  refine ⟨fun slot cell held => ?_, fun slot other cell held held' => ?_⟩
  · rcases placed slot cell held with old | ⟨_, _, bound⟩
    · exact Nat.lt_of_lt_of_le (separate.made slot cell old) grows
    · exact bound
  · rcases placed slot cell held with old | ⟨rfl, new, _⟩
    · have bound := separate.made slot cell old
      rcases placed other cell held' with old' | ⟨_, new, _⟩
      · exact separate.single slot other cell old old'
      · omega
    · rcases placed other cell held' with old | ⟨rfl, _, _⟩
      · have bound := separate.made other cell old
        omega
      · rfl

/-- Slots stay separate where no cell comes into a slot. -/
theorem of_kept (separate : before.Separate)
    (grows : before.heap.cells.size ≤ after.heap.cells.size)
    (kept : ∀ slot cell, after.held slot = some cell → before.held slot = some cell) :
    after.Separate :=
  ⟨fun slot cell held => Nat.lt_of_lt_of_le (separate.made slot cell (kept slot cell held)) grows,
    fun slot other cell held held' =>
      separate.single slot other cell (kept slot cell held) (kept other cell held')⟩

/-- Slots stay `Separate` where scopes and memory are left alone. -/
theorem of_same (separate : before.Separate) (heap : after.heap = before.heap)
    (scopes : after.scopes = before.scopes) : after.Separate := by
  have same : ∀ slot, after.held slot = before.held slot :=
    held_congr (fun _ => by rw [scopes]) (fun _ => by rw [heap]) fun _ => by rw [heap]
  refine separate.of_kept (Nat.le_of_eq (congrArg (·.cells.size) heap.symm)) ?_
  intro slot cell held
  rwa [same] at held

/-! ### Memory -/

/-- Slots stay separate where memory gives each new cell one place to go. -/
theorem of_memory {heap : Heap} (place : CellId → Slot) (separate : machine.Separate)
    (grows : machine.heap.cells.size ≤ heap.cells.size)
    (names : ∀ owner name cell, (heap.namesOf owner).get? name = some cell →
      (machine.heap.namesOf owner).get? name = some cell ∨
        .property owner name = place cell ∧ machine.heap.cells.size ≤ cell.index ∧
          cell.index < heap.cells.size)
    (elements : ∀ array position cell, (heap.array array).elements[position]? = some cell →
      (machine.heap.array array).elements[position]? = some cell ∨
        .element array position = place cell ∧ machine.heap.cells.size ≤ cell.index ∧
          cell.index < heap.cells.size) : Separate { machine with heap } := by
  refine separate.of_placed place grows fun slot cell held => ?_
  cases slot with
  | binding level name => exact .inl held
  | property owner name => exact names owner name cell held
  | element array position => exact elements array position cell held

/-- Slots stay `Separate` where memory only gets larger. -/
theorem of_grown {heap : Heap} (separate : machine.Separate)
    (grows : machine.heap.cells.size ≤ heap.cells.size)
    (names : ∀ owner, heap.namesOf owner = machine.heap.namesOf owner)
    (arrays : heap.arrays = machine.heap.arrays) : Separate { machine with heap } := by
  have elements (id : ArrayId) : (heap.array id).elements = (machine.heap.array id).elements := by
    unfold Heap.array
    rw [arrays]
  have same : ∀ slot, held { machine with heap } slot = machine.held slot :=
    held_congr (fun _ => rfl) names elements
  refine separate.of_kept grows fun slot cell held => ?_
  rwa [same] at held

theorem newArray (separate : machine.Separate) (cells : Array Cell) :
    Separate
      { machine with
        heap := (Heap.newArray (Heap.idsFrom machine.heap.cells.size cells.size)
          { machine.heap with cells := machine.heap.cells ++ cells }).2 } := by
  have size : (Heap.newArray (Heap.idsFrom machine.heap.cells.size cells.size)
      { machine.heap with cells := machine.heap.cells ++ cells }).2.cells.size =
        machine.heap.cells.size + cells.size := Array.size_append
  refine separate.of_memory
    (fun cell => .element ⟨machine.heap.arrays.size⟩ (cell.index - machine.heap.cells.size))
    (by omega) (fun owner name cell found => ?_) fun array position cell found => ?_
  · left
    rwa [Heap.namesOf_newArray, Heap.namesOf_withCells] at found
  · rcases Heap.getElem?_newArray found with old | ⟨rfl, member⟩
    · exact .inl old
    · obtain ⟨index, within⟩ := Heap.getElem?_idsFrom member
      exact .inr ⟨congrArg (Slot.element _) (by omega), by omega, by omega⟩

theorem property (separate : machine.Separate) (owner : Content) (name : Text) (cell : Cell) :
    Separate
      { machine with
        heap := (Heap.modifyProperties owner
          (fun table => table.insert name ⟨machine.heap.cells.size⟩)
          { machine.heap with cells := machine.heap.cells.push cell }).2 } := by
  have size : (Heap.modifyProperties owner
      (fun table => table.insert name ⟨machine.heap.cells.size⟩)
      { machine.heap with cells := machine.heap.cells.push cell }).2.cells.size =
        machine.heap.cells.size + 1 := by
    rw [Heap.cells_modifyProperties]
    exact Array.size_push _
  refine separate.of_memory (fun _ => .property owner name) (by omega)
    (fun other known held found => ?_) fun array position held found => ?_
  · rcases Heap.namesOf_modifyProperties owner other
      (fun table => table.insert name ⟨machine.heap.cells.size⟩)
      { machine.heap with cells := machine.heap.cells.push cell } with same | ⟨rfl, changed⟩
    · rw [same, Heap.namesOf_withCells] at found
      exact .inl found
    · rw [changed, Heap.namesOf_withCells] at found
      rcases Table.get?_insert_cases found with old | ⟨rfl, rfl⟩
      · exact .inl old
      · exact .inr ⟨rfl, Nat.le_refl _, Nat.lt_of_lt_of_eq (Nat.lt_succ_self _) size.symm⟩
  · rw [Heap.elements_modifyProperties] at found
    exact .inl found

theorem growArray (separate : machine.Separate) (id : ArrayId) (size : Nat) :
    Separate { machine with heap := (Heap.growArray id size machine.heap).2 } := by
  have sizes := Heap.size_cells_growArray id size machine.heap
  refine separate.of_memory (fun cell => .element id
    ((machine.heap.array id).elements.size + (cell.index - machine.heap.cells.size)))
    (by omega) (fun owner name cell found => ?_) fun array position cell found => ?_
  · rw [Heap.namesOf_growArray] at found
    exact .inl found
  · rcases Heap.getElem?_growArray found with old | ⟨rfl, rfl, new, bound⟩
    · exact .inl old
    · exact .inr ⟨rfl, new, bound⟩

theorem assignElement (separate : machine.Separate) (id : ArrayId) (position : Nat) (cell : Cell) :
    Separate
      { machine with
        heap := (Heap.assignElement id position ⟨machine.heap.cells.size⟩
          { machine.heap with cells := machine.heap.cells.push cell }).2 } := by
  generalize same : ({ machine.heap with cells := machine.heap.cells.push cell } : Heap) = pushed
  have first : pushed.cells.size = machine.heap.cells.size + 1 := by
    rw [← same]
    exact Array.size_push _
  have sizes := Heap.size_cells_growArray id (position + 1) pushed
  have size : (Heap.assignElement id position ⟨machine.heap.cells.size⟩ pushed).2.cells.size =
    (Heap.growArray id (position + 1) pushed).2.cells.size := rfl
  refine separate.of_memory
    (fun held => if held.index = machine.heap.cells.size then .element id position
      else .element id ((pushed.array id).elements.size + (held.index - pushed.cells.size)))
    (by omega) (fun owner name held found => ?_) fun array place held found => ?_
  · rw [Heap.namesOf_assignElement, ← same] at found
    left
    cases owner <;> exact found
  · rcases Heap.getElem?_assignElement found with grown | ⟨rfl, rfl, rfl⟩
    · rcases Heap.getElem?_growArray grown with old | ⟨rfl, rfl, new, bound⟩
      · rw [← same] at old
        exact .inl old
      · exact .inr ⟨(if_neg (by omega)).symm, by omega, by omega⟩
    · exact .inr ⟨(if_pos rfl).symm, Nat.le_refl _, by dsimp only; omega⟩

/-- Slots stay `Separate` over every `Change` of memory. -/
theorem change {heap : Heap} (separate : machine.Separate)
    (change : Heap.Change machine.heap heap) : Separate { machine with heap } := by
  cases change with
  | cell cell =>
    refine separate.of_grown ?_ (Heap.namesOf_withCells _ _) rfl
    rw [Array.size_push]
    exact Nat.le_succ _
  | write id content writable =>
    refine separate.of_grown ?_ (Heap.namesOf_withCells _ _) rfl
    exact Nat.le_of_eq Array.size_setIfInBounds.symm
  | object => exact separate.of_grown (Nat.le_refl _) (Heap.namesOf_newObject _) rfl
  | function body bare =>
    exact separate.of_grown (Nat.le_refl _) (Heap.namesOf_newFunction _ body bare) rfl
  | array cells => exact separate.newArray cells
  | property owner name cell => exact separate.property owner name cell
  | growth id size => exact separate.growArray id size
  | element id position cell => exact separate.assignElement id position cell

theorem changes {heap : Heap} (separate : machine.Separate)
    (changes : ReflTransGen Heap.Change machine.heap heap) : Separate { machine with heap } := by
  induction changes with
  | refl => exact separate
  | tail _ change inductionHypothesis => exact inductionHypothesis.change change

/-! ### Scopes -/

/-- Slots stay separate where a new cell gets a name in one scope. -/
theorem named {scopes : Scopes} {name : Text} {level : Nat} (separate : machine.Separate)
    (cell : Cell)
    (levels : ∀ other, scopes.level other = machine.scopes.level other ∨
      other = level ∧ scopes.level other =
        (machine.scopes.level level).insert name ⟨machine.heap.cells.size⟩) :
    Separate
      { machine with
        heap := { machine.heap with cells := machine.heap.cells.push cell }, scopes } := by
  have size : (machine.heap.cells.push cell).size = machine.heap.cells.size + 1 :=
    Array.size_push _
  refine separate.of_placed (fun _ => .binding level name)
    (Nat.le_of_lt_succ (by dsimp only; omega)) fun slot held found => ?_
  cases slot with
  | binding other known =>
    change (scopes.level other).get? known = some held at found
    rcases levels other with same | ⟨rfl, changed⟩
    · rw [same] at found
      exact .inl found
    · rw [changed] at found
      rcases Table.get?_insert_cases found with old | ⟨rfl, rfl⟩
      · exact .inl old
      · exact .inr ⟨rfl, Nat.le_refl _, by dsimp only; omega⟩
  | property owner name =>
    left
    cases owner <;> exact found
  | element array position => exact .inl found

theorem openScope (separate : machine.Separate) :
    Separate { machine with scopes := machine.scopes.push } := by
  have same : ∀ slot,
      held { machine with scopes := machine.scopes.push } slot = machine.held slot :=
    held_congr machine.scopes.level_push (fun _ => rfl) fun _ => rfl
  refine separate.of_kept (Nat.le_refl _) fun slot cell held => ?_
  rwa [same] at held

/-- Slots stay `Separate` where scopes are closed. -/
theorem closeScopes (separate : machine.Separate) (count : Nat) :
    Separate
      { machine with
        scopes := { machine.scopes with opened := machine.scopes.opened.drop count } } := by
  refine separate.of_kept (Nat.le_refl _) fun slot cell held => ?_
  cases slot with
  | binding level name =>
    change (Scopes.level { machine.scopes with opened := machine.scopes.opened.drop count }
      level).get? name = some cell at held
    rcases machine.scopes.level_drop count level with same | empty
    · rwa [same] at held
    · rw [empty] at held
      cases held
  | property owner name => exact held
  | element array position => exact held

/-! ### Acts -/

theorem quiet (separate : before.Separate) (quiet : Quiet before after) : after.Separate := by
  cases quiet with
  | operands | receivers | flags | accumulator | current | output =>
    exact separate.of_same rfl rfl
  | memory heap change => exact separate.change change
  | binding name cell => exact separate.named cell (before.scopes.level_bind name _)

theorem act (separate : before.Separate) (act : Act before after) : after.Separate := by
  cases act with
  | quiet quiet => exact separate.quiet quiet
  | frames frames => exact separate.of_same rfl rfl
  | openScope => exact separate.openScope
  | closeScope =>
    have closed := separate.closeScopes 1
    rwa [List.drop_one] at closed

/-- Slots stay `Separate` over every move, `advance`, however it ends. -/
theorem advance (separate : machine.Separate) (pending : List Activation) :
    (leftBy (Machine.advance pending) machine).Separate := by
  have acts : ReflTransGen Act machine (leftBy (Machine.advance pending) machine) :=
    acts_advance pending machine
  generalize leftBy (Machine.advance pending) machine = final at acts ⊢
  induction acts with
  | refl => exact separate
  | tail _ act inductionHypothesis => exact inductionHypothesis.act act

end Separate

end Machine

end ScriptEngine
