/-
This file is about references. Memory is closed when everything that a cell, a property table or
an array refers to has been made. Memory only grows, so a reference that was good stays good, and
no operation makes one that is not: each puts only references into memory that it was given or
has made itself.
-/

import ScriptEngine.Machine.Native

namespace ScriptEngine

/-! ### What arrays hold after a change -/

theorem mem_of_mem_extract {Value : Type} {values : Array Value} {start stop : Nat} {value : Value}
    (member : value ∈ values.extract start stop) : value ∈ values := by
  obtain ⟨index, _, same⟩ := Array.mem_extract_iff_getElem.mp member
  exact Array.mem_of_getElem same

theorem mem_of_mem_shrink {Value : Type} {values : Array Value} {size : Nat} {value : Value}
    (member : value ∈ values.shrink size) : value ∈ values := by
  rw [Array.shrink_eq_take] at member
  exact mem_of_mem_extract member

theorem mem_of_mem_pop {Value : Type} {values : Array Value} {value : Value}
    (member : value ∈ values.pop) : value ∈ values := by
  obtain ⟨index, within, rfl⟩ := Array.mem_iff_getElem.mp member
  rw [Array.getElem_pop]
  exact Array.getElem_mem _

theorem mem_of_back? {Value : Type} {values : Array Value} {value : Value}
    (last : values.back? = some value) : value ∈ values := by
  obtain ⟨lower, rfl⟩ := Array.back?_eq_some_iff.mp last
  exact Array.mem_push_self

theorem mem_modify {Value : Type} {values : Array Value} {index : Nat} {change : Value → Value}
    {value : Value} (member : value ∈ values.modify index change) :
    value ∈ values ∨ ∃ old ∈ values, value = change old := by
  obtain ⟨place, within, rfl⟩ := Array.mem_iff_getElem.mp member
  rw [Array.getElem_modify]
  have present : place < values.size := Array.size_modify ▸ within
  split
  · exact .inr ⟨_, Array.getElem_mem present, rfl⟩
  · exact .inl (Array.getElem_mem present)

/-- What holds of every member and of what stands in for missing ones holds at every index. -/
theorem holds_getD {Value : Type} (property : Value → Prop) {values : Array Value}
    {fallback : Value} (each : ∀ value ∈ values, property value) (missing : property fallback)
    (index : Nat) : property (values.getD index fallback) := by
  rw [Array.getD_eq_getD_getElem?]
  cases found : values[index]? with
  | none => exact missing
  | some value => exact each value (Array.mem_of_getElem? found)

theorem Table.mem_insertEntry {name : Text} {cell : CellId} {entries : List (Text × CellId)}
    {entry : Text × CellId} (member : entry ∈ insertEntry name cell entries) :
    entry ∈ entries ∨ entry = (name, cell) := by
  induction entries with
  | nil => exact .inr (List.mem_singleton.mp member)
  | cons known rest inductionHypothesis =>
    rw [insertEntry] at member
    split at member
    · rcases List.mem_cons.mp member with same | old
      · exact .inr same
      · exact .inl (List.mem_cons_of_mem _ old)
    · rcases List.mem_cons.mp member with same | later
      · exact .inl (List.mem_cons.mpr (.inl same))
      · exact (inductionHypothesis later).imp_left (List.mem_cons_of_mem _)

theorem Table.mem_of_get? {table : Table} {name : Text} {cell : CellId}
    (found : table.get? name = some cell) : ∃ entry ∈ table.entries, entry.2 = cell := by
  obtain ⟨entries⟩ := table
  induction entries with
  | nil => cases found
  | cons entry rest inductionHypothesis =>
    rw [get?, findEntry?] at found
    split at found
    · exact ⟨entry, List.mem_cons_self .., Option.some.inj found⟩
    · obtain ⟨other, member, same⟩ := inductionHypothesis found
      exact ⟨other, List.mem_cons_of_mem _ member, same⟩

namespace Heap

/-! ### Good references -/

/-- A cell has been made. -/
def Has (heap : Heap) (cell : CellId) : Prop :=
  cell.index < heap.cells.size

/-- What a content refers to has been made. -/
def Knows (heap : Heap) : Content → Prop
  | .object id => id.index < heap.objects.size
  | .array id => id.index < heap.arrays.size
  | .function id => id.index < heap.functions.size
  | .null | .undefined | .number _ | .text _ => True

/-- All cells of a table have been made. -/
def HasAll (heap : Heap) (table : Table) : Prop :=
  ∀ entry ∈ table.entries, heap.Has entry.2

/-- Nothing in memory refers to something that has not been made. -/
structure Closed (heap : Heap) : Prop where
  cells : ∀ cell ∈ heap.cells, heap.Knows cell.content
  objects : ∀ table ∈ heap.objects, heap.HasAll table
  elements : ∀ body ∈ heap.arrays, ∀ cell ∈ body.elements, heap.Has cell
  arrays : ∀ body ∈ heap.arrays, heap.HasAll body.properties
  functions : ∀ body ∈ heap.functions, heap.HasAll body.properties

/-- One memory has everything that another has. -/
structure Grows (before after : Heap) : Prop where
  cells : before.cells.size ≤ after.cells.size
  objects : before.objects.size ≤ after.objects.size
  arrays : before.arrays.size ≤ after.arrays.size
  functions : before.functions.size ≤ after.functions.size

section References

variable {before middle after heap : Heap}

theorem Grows.refl (heap : Heap) : heap.Grows heap :=
  ⟨Nat.le_refl _, Nat.le_refl _, Nat.le_refl _, Nat.le_refl _⟩

theorem Grows.trans (first : before.Grows middle) (second : middle.Grows after) :
    before.Grows after :=
  ⟨Nat.le_trans first.cells second.cells, Nat.le_trans first.objects second.objects,
    Nat.le_trans first.arrays second.arrays, Nat.le_trans first.functions second.functions⟩

/-- A cell that memory `Has` is not changed by others that are made. -/
theorem cell_of_has {more : Array Cell} {cell : CellId} (has : before.Has cell)
    (cells : after.cells = before.cells ++ more) : after.cell cell = before.cell cell := by
  unfold Heap.cell
  rw [cells, Array.getD_eq_getD_getElem?, Array.getD_eq_getD_getElem?,
    Array.getElem?_append_left has]

/-- Nor is an object that memory `Knows` by one that is made. -/
theorem object_of_knows {made : Table} {id : ObjectId} (known : before.Knows (.object id))
    (objects : after.objects = before.objects.push made) : after.object id = before.object id := by
  unfold Heap.object
  rw [objects, Array.getD_eq_getD_getElem?, Array.getD_eq_getD_getElem?,
    Array.getElem?_push_lt known, Array.getElem?_eq_getElem known]

theorem object_of_made {made : Table} (objects : after.objects = before.objects.push made) :
    after.object ⟨before.objects.size⟩ = made := by
  unfold Heap.object
  rw [objects, Array.getD_eq_getD_getElem?, Array.getElem?_push_size, Option.getD_some]

theorem Has.mono {cell : CellId} (has : before.Has cell) (grows : before.Grows after) :
    after.Has cell :=
  Nat.lt_of_lt_of_le has grows.cells

theorem HasAll.mono {table : Table} (has : before.HasAll table) (grows : before.Grows after) :
    after.HasAll table :=
  fun entry member => (has entry member).mono grows

theorem Knows.mono {content : Content} (knows : before.Knows content)
    (grows : before.Grows after) : after.Knows content := by
  cases content with
  | object id => exact Nat.lt_of_lt_of_le knows grows.objects
  | array id => exact Nat.lt_of_lt_of_le knows grows.arrays
  | function id => exact Nat.lt_of_lt_of_le knows grows.functions
  | null | undefined | number | text => trivial

theorem hasAll_empty (heap : Heap) : heap.HasAll {} :=
  fun _ member => absurd member List.not_mem_nil

theorem HasAll.insert {table : Table} {cell : CellId} (hasAll : heap.HasAll table)
    (has : heap.Has cell) (name : Text) : heap.HasAll (table.insert name cell) := by
  intro entry member
  rcases Table.mem_insertEntry member with old | rfl
  · exact hasAll entry old
  · exact has

theorem HasAll.get? {table : Table} {name : Text} {cell : CellId} (hasAll : heap.HasAll table)
    (found : table.get? name = some cell) : heap.Has cell := by
  obtain ⟨entry, member, rfl⟩ := Table.mem_of_get? found
  exact hasAll entry member

/-! ### Reading closed memory -/

theorem Closed.content (closed : heap.Closed) (cell : CellId) : heap.Knows (heap.content cell) :=
  holds_getD (fun cell : Cell => heap.Knows cell.content) closed.cells
    (show heap.Knows .undefined from trivial) cell.index

theorem Closed.object (closed : heap.Closed) (id : ObjectId) : heap.HasAll (heap.object id) :=
  holds_getD heap.HasAll closed.objects heap.hasAll_empty id.index

theorem Closed.array (closed : heap.Closed) (id : ArrayId) :
    heap.HasAll (heap.array id).properties :=
  holds_getD (fun body : ArrayBody => heap.HasAll body.properties) closed.arrays
    heap.hasAll_empty id.index

theorem Closed.function (closed : heap.Closed) (id : FunctionId) :
    heap.HasAll (heap.function id).properties :=
  holds_getD (fun body : FunctionBody => heap.HasAll body.properties) closed.functions
    heap.hasAll_empty id.index

theorem Closed.properties? (closed : heap.Closed) {content : Content} {table : Table}
    (found : heap.properties? content = some table) : heap.HasAll table := by
  cases content with
  | object id =>
    cases found
    exact closed.object id
  | function id =>
    cases found
    exact closed.function id
  | null | undefined | number | text | array => cases found

/-- Memory that has gained nothing but what it knows itself stays `Closed`. -/
theorem Closed.of_grows (closed : before.Closed) (grows : before.Grows after)
    (cells : ∀ cell ∈ after.cells, cell ∈ before.cells ∨ after.Knows cell.content)
    (objects : ∀ table ∈ after.objects, table ∈ before.objects ∨ after.HasAll table)
    (arrays : ∀ body ∈ after.arrays, body ∈ before.arrays ∨
      (∀ cell ∈ body.elements, after.Has cell) ∧ after.HasAll body.properties)
    (functions : ∀ body ∈ after.functions, body ∈ before.functions ∨
      after.HasAll body.properties) : after.Closed := by
  refine ⟨fun cell member => ?_, fun table member => ?_, fun body member cell element => ?_,
    fun body member => ?_, fun body member => ?_⟩
  · exact (cells cell member).elim (fun old => (closed.cells cell old).mono grows) id
  · exact (objects table member).elim (fun old => (closed.objects table old).mono grows) id
  · rcases arrays body member with old | ⟨new, _⟩
    · exact (closed.elements body old cell element).mono grows
    · exact new cell element
  · exact (arrays body member).elim (fun old => (closed.arrays body old).mono grows) And.right
  · exact (functions body member).elim (fun old => (closed.functions body old).mono grows) id

end References

/-! ### Operations that keep memory closed -/

/-- An operation leaves memory that is `Closed` and `Grows` from what there was before, and a result
that suits it. -/
structure Keeps {Result : Type} (suits : Heap → Result → Prop) (operation : StateM Heap Result)
    (heap : Heap) : Prop where
  closed : (operation heap).2.Closed
  grows : heap.Grows (operation heap).2
  result : suits (operation heap).2 (operation heap).1

/-- Every result suits. -/
def Anything {Result : Type} (_ : Heap) (_ : Result) : Prop := True

section Sequences

variable {Result Next : Type} {heap : Heap} {suits : Heap → Result → Prop}
  {suitsNext : Heap → Next → Prop}

theorem keeps_pure (closed : heap.Closed) {result : Result} (good : suits heap result) :
    Keeps suits (pure result) heap :=
  ⟨closed, .refl heap, good⟩

theorem keeps_bind {operation : StateM Heap Result} {next : Result → StateM Heap Next}
    (first : Keeps suits operation heap)
    (second : ∀ result after, after.Closed → heap.Grows after → suits after result →
      Keeps suitsNext (next result) after) :
    Keeps suitsNext (operation >>= next) heap := by
  have rest := second _ _ first.closed first.grows first.result
  exact ⟨rest.closed, first.grows.trans rest.grows, rest.result⟩

theorem keeps_get {next : Heap → StateM Heap Next} (second : Keeps suitsNext (next heap) heap) :
    Keeps suitsNext (get >>= next) heap :=
  ⟨second.closed, second.grows, second.result⟩

end Sequences

section Elementary

variable {heap : Heap}

theorem keeps_allocate (closed : heap.Closed) {cell : Cell} (knows : heap.Knows cell.content) :
    Keeps Has (allocate cell) heap := by
  have size : (heap.cells.push cell).size = heap.cells.size + 1 := Array.size_push _
  have grows : heap.Grows { heap with cells := heap.cells.push cell } :=
    ⟨by dsimp only; omega, Nat.le_refl _, Nat.le_refl _, Nat.le_refl _⟩
  refine ⟨closed.of_grows grows (fun other member => ?_) (fun _ => .inl) (fun _ => .inl)
    fun _ => .inl, grows, ?_⟩
  · rcases Array.mem_push.mp member with old | rfl
    · exact .inl old
    · exact .inr (knows.mono grows)
  · exact Nat.lt_of_lt_of_eq (Nat.lt_succ_self _) size.symm

theorem keeps_allocateContent (closed : heap.Closed) {content : Content}
    (knows : heap.Knows content) : Keeps Has (allocateContent content) heap :=
  keeps_allocate closed knows

theorem keeps_copy (closed : heap.Closed) (cell : CellId) : Keeps Has (copy cell) heap :=
  keeps_get (keeps_allocateContent closed (closed.content cell))

theorem keeps_setContent (closed : heap.Closed) (cell : CellId) {content : Content}
    (knows : heap.Knows content) : Keeps Anything (setContent cell content) heap := by
  have grows : heap.Grows (setContent cell content heap).2 :=
    ⟨Nat.le_of_eq Array.size_setIfInBounds.symm, Nat.le_refl _, Nat.le_refl _, Nat.le_refl _⟩
  refine ⟨closed.of_grows grows (fun other member => ?_) (fun _ => .inl) (fun _ => .inl)
    fun _ => .inl, grows, trivial⟩
  rcases Array.mem_or_eq_of_mem_setIfInBounds member with old | rfl
  · exact .inl old
  · exact .inr (knows.mono grows)

theorem keeps_newObject (closed : heap.Closed) :
    Keeps (fun after id => after.Knows (.object id)) newObject heap := by
  have size : (heap.objects.push {}).size = heap.objects.size + 1 := Array.size_push _
  have grows : heap.Grows { heap with objects := heap.objects.push {} } :=
    ⟨Nat.le_refl _, by dsimp only; omega, Nat.le_refl _, Nat.le_refl _⟩
  refine ⟨closed.of_grows grows (fun _ => .inl) (fun table member => ?_) (fun _ => .inl)
    fun _ => .inl, grows, ?_⟩
  · rcases Array.mem_push.mp member with old | rfl
    · exact .inl old
    · exact .inr (hasAll_empty _)
  · exact Nat.lt_of_lt_of_eq (Nat.lt_succ_self _) size.symm

theorem keeps_newArray (closed : heap.Closed) {elements : Array CellId}
    (has : ∀ cell ∈ elements, heap.Has cell) :
    Keeps (fun after id => after.Knows (.array id)) (newArray elements) heap := by
  have size : (heap.arrays.push { elements }).size = heap.arrays.size + 1 := Array.size_push _
  have grows : heap.Grows { heap with arrays := heap.arrays.push { elements } } :=
    ⟨Nat.le_refl _, Nat.le_refl _, by dsimp only; omega, Nat.le_refl _⟩
  refine ⟨closed.of_grows grows (fun _ => .inl) (fun _ => .inl) (fun body member => ?_)
    fun _ => .inl, grows, ?_⟩
  · rcases Array.mem_push.mp member with old | rfl
    · exact .inl old
    · exact .inr ⟨fun cell element => (has cell element).mono grows, hasAll_empty _⟩
  · exact Nat.lt_of_lt_of_eq (Nat.lt_succ_self _) size.symm

theorem keeps_newFunction (closed : heap.Closed) {body : FunctionBody}
    (has : heap.HasAll body.properties) :
    Keeps (fun after id => after.Knows (.function id)) (newFunction body) heap := by
  have size : (heap.functions.push body).size = heap.functions.size + 1 := Array.size_push _
  have grows : heap.Grows { heap with functions := heap.functions.push body } :=
    ⟨Nat.le_refl _, Nat.le_refl _, Nat.le_refl _, by dsimp only; omega⟩
  refine ⟨closed.of_grows grows (fun _ => .inl) (fun _ => .inl) (fun _ => .inl)
    fun other member => ?_, grows, ?_⟩
  · rcases Array.mem_push.mp member with old | rfl
    · exact .inl old
    · exact .inr (has.mono grows)
  · exact Nat.lt_of_lt_of_eq (Nat.lt_succ_self _) size.symm

theorem keeps_modifyObject (closed : heap.Closed) (id : ObjectId) {change : Table → Table}
    (keeps : ∀ table, heap.HasAll table → heap.HasAll (change table)) :
    Keeps Anything (modifyObject id change) heap := by
  have grows : heap.Grows (modifyObject id change heap).2 :=
    ⟨Nat.le_refl _, Nat.le_of_eq Array.size_modify.symm, Nat.le_refl _, Nat.le_refl _⟩
  refine ⟨closed.of_grows grows (fun _ => .inl) (fun table member => ?_) (fun _ => .inl)
    fun _ => .inl, grows, trivial⟩
  rcases mem_modify member with old | ⟨old, present, rfl⟩
  · exact .inl old
  · exact .inr ((keeps old (closed.objects old present)).mono grows)

theorem keeps_modifyFunction (closed : heap.Closed) (id : FunctionId)
    {change : FunctionBody → FunctionBody}
    (keeps : ∀ body, heap.HasAll body.properties → heap.HasAll (change body).properties) :
    Keeps Anything (modifyFunction id change) heap := by
  have grows : heap.Grows (modifyFunction id change heap).2 :=
    ⟨Nat.le_refl _, Nat.le_refl _, Nat.le_refl _, Nat.le_of_eq Array.size_modify.symm⟩
  refine ⟨closed.of_grows grows (fun _ => .inl) (fun _ => .inl) (fun _ => .inl)
    fun body member => ?_, grows, trivial⟩
  rcases mem_modify member with old | ⟨old, present, rfl⟩
  · exact .inl old
  · exact .inr ((keeps old (closed.functions old present)).mono grows)

theorem keeps_modifyArray (closed : heap.Closed) (id : ArrayId) {change : ArrayBody → ArrayBody}
    (elements : ∀ body, (∀ cell ∈ body.elements, heap.Has cell) →
      ∀ cell ∈ (change body).elements, heap.Has cell)
    (keeps : ∀ body, heap.HasAll body.properties → heap.HasAll (change body).properties) :
    Keeps Anything (modifyArray id change) heap := by
  have grows : heap.Grows (modifyArray id change heap).2 :=
    ⟨Nat.le_refl _, Nat.le_refl _, Nat.le_of_eq Array.size_modify.symm, Nat.le_refl _⟩
  refine ⟨closed.of_grows grows (fun _ => .inl) (fun _ => .inl) (fun body member => ?_)
    fun _ => .inl, grows, trivial⟩
  rcases mem_modify member with old | ⟨old, present, rfl⟩
  · exact .inl old
  · refine .inr ⟨fun cell element => ?_, (keeps old (closed.arrays old present)).mono grows⟩
    exact (elements old (closed.elements old present) cell element).mono grows

theorem keeps_modifyProperties (closed : heap.Closed) (owner : Content) {change : Table → Table}
    (keeps : ∀ table, heap.HasAll table → heap.HasAll (change table)) :
    Keeps Anything (modifyProperties owner change) heap := by
  cases owner with
  | object id => exact keeps_modifyObject closed id keeps
  | function id => exact keeps_modifyFunction closed id fun body => keeps body.properties
  | array id =>
    exact keeps_modifyArray closed id (fun _ has => has) fun body => keeps body.properties
  | null | undefined | number | text => exact keeps_pure closed trivial

theorem keeps_allocateMany (closed : heap.Closed) (count : Nat) :
    Keeps (fun after cells => ∀ cell ∈ cells, after.Has cell) (allocateMany count) heap := by
  have size : (heap.cells ++ Array.replicate count ({} : Cell)).size = heap.cells.size + count := by
    rw [Array.size_append, Array.size_replicate]
  have grows : heap.Grows (allocateMany count heap).2 :=
    ⟨Nat.le_trans (Nat.le_add_right _ _) (Nat.le_of_eq size.symm), Nat.le_refl _, Nat.le_refl _,
      Nat.le_refl _⟩
  refine ⟨closed.of_grows grows (fun cell member => ?_) (fun _ => .inl) (fun _ => .inl)
    fun _ => .inl, grows, fun cell member => ?_⟩
  · rcases Array.mem_append.mp member with old | new
    · exact .inl old
    · rw [(Array.mem_replicate.mp new).2]
      exact .inr trivial
  · obtain ⟨position, within, rfl⟩ := Array.mem_map.mp member
    have bound : heap.cells.size + position < heap.cells.size + count :=
      Nat.add_lt_add_left (Array.mem_range.mp within) _
    exact Nat.lt_of_lt_of_eq bound size.symm

end Elementary

/-! ### Properties and arrays -/

section Properties

variable {heap : Heap}

theorem keeps_allocateObject (closed : heap.Closed) : Keeps Has allocateObject heap :=
  keeps_bind (keeps_newObject closed) fun _ _ closed _ knows =>
    keeps_allocateContent closed knows

theorem keeps_allocateArray (closed : heap.Closed) (size : Nat) :
    Keeps Has (allocateArray size) heap :=
  keeps_bind (keeps_allocateMany closed size) fun _ _ closed _ has =>
    keeps_bind (keeps_newArray closed has) fun _ _ closed _ knows =>
      keeps_allocateContent closed knows

theorem keeps_allocateFunction (closed : heap.Closed) {body : FunctionBody}
    (has : heap.HasAll body.properties) : Keeps Has (allocateFunction body) heap :=
  keeps_bind (keeps_newFunction closed has) fun _ _ closed _ knows =>
    keeps_allocateContent closed knows

theorem keeps_slot (closed : heap.Closed) (owner : Content) {table : Table}
    (has : heap.HasAll table) (name : Text) : Keeps Has (slot owner table name) heap := by
  unfold slot
  split
  · rename_i cell found
    exact keeps_pure closed (has.get? found)
  · refine keeps_bind (keeps_allocateContent closed trivial) fun cell after closed _ made => ?_
    refine keeps_bind (keeps_modifyProperties closed owner fun table has => has.insert made name)
      fun _ last closed grows _ => keeps_pure closed (made.mono grows)

theorem keeps_growArray (closed : heap.Closed) (id : ArrayId) (size : Nat) :
    Keeps Anything (growArray id size) heap := by
  refine keeps_get (keeps_bind (keeps_allocateMany closed _) fun cells after closed _ has => ?_)
  refine keeps_modifyArray closed id (fun body old cell member => ?_) fun _ has => has
  exact (Array.mem_append.mp member).elim (old cell) (has cell)

theorem keeps_assignElement (closed : heap.Closed) (id : ArrayId) (position : Nat) {cell : CellId}
    (has : heap.Has cell) : Keeps Anything (assignElement id position cell) heap := by
  refine keeps_bind (keeps_growArray closed id _) fun _ after closed grows _ => ?_
  refine keeps_modifyArray closed id (fun body old other member => ?_) fun _ has => has
  rcases Array.mem_or_eq_of_mem_setIfInBounds member with present | rfl
  · exact old other present
  · exact has.mono grows

/-- Behind a growth the position that it was for is there. -/
theorem lt_size_growArray {heap : Heap} {id : ArrayId} (known : heap.Knows (.array id))
    (position : Nat) :
    position < ((growArray id (position + 1) heap).2.array id).elements.size := by
  have present : id.index < heap.arrays.size := known
  have size : ((growArray id (position + 1) heap).2.array id).elements.size =
      (heap.array id).elements.size + (position + 1 - (heap.array id).elements.size) := by
    change (Array.getD (heap.arrays.modify id.index _) id.index {}).elements.size = _
    rw [Array.getD_eq_getD_getElem?, Array.getElem?_modify, if_pos rfl]
    unfold Heap.array
    rw [Array.getD_eq_getD_getElem?, Array.getElem?_eq_getElem present]
    simp
  omega

theorem keeps_arrayProperty (closed : heap.Closed) {id : ArrayId} (known : heap.Knows (.array id))
    (name : Text) : Keeps Has (arrayProperty id name) heap := by
  unfold arrayProperty
  split
  · rename_i position _
    have grown := keeps_growArray closed id (position + 1)
    refine ⟨grown.closed, grown.grows, ?_⟩
    have within := lt_size_growArray known position
    have listed : (growArray id (position + 1) heap).2.array id ∈
        (growArray id (position + 1) heap).2.arrays := by
      have present : id.index < (growArray id (position + 1) heap).2.arrays.size :=
        Nat.lt_of_lt_of_le known grown.grows.arrays
      unfold Heap.array
      rw [Array.getD_eq_getD_getElem?, Array.getElem?_eq_getElem present]
      exact Array.getElem_mem present
    change (growArray id (position + 1) heap).2.Has
      (((growArray id (position + 1) heap).2.array id).elements.getD position default)
    rw [Array.getD_eq_getD_getElem?, Array.getElem?_eq_getElem within]
    exact grown.closed.elements _ listed _ (Array.getElem_mem within)
  · split
    · exact keeps_get (keeps_allocate closed trivial)
    · exact keeps_get (keeps_slot closed _ (closed.array id) name)

theorem keeps_prepare (closed : heap.Closed) (id : FunctionId) :
    Keeps Anything (prepare id) heap := by
  refine keeps_get ?_
  split
  · exact keeps_pure closed trivial
  · refine keeps_bind (keeps_allocateObject closed) fun cell after closed _ made => ?_
    exact keeps_modifyFunction closed id fun body has => has.insert made _

theorem keeps_getProperty (closed : heap.Closed) {content : Content} (known : heap.Knows content)
    (name : Text) : Keeps Has (getProperty content name) heap := by
  cases content with
  | object id => exact keeps_get (keeps_slot closed _ (closed.object id) name)
  | array id => exact keeps_arrayProperty closed known name
  | function id =>
    unfold getProperty
    dsimp only
    split
    · refine keeps_bind (keeps_prepare closed id) fun _ after closed _ _ => ?_
      exact keeps_get (keeps_slot closed _ (closed.function id) name)
    · exact keeps_get (keeps_slot closed _ (closed.function id) name)
  | text value =>
    refine keeps_allocate closed ?_
    unfold textProperty
    dsimp only
    repeat' split
    all_goals trivial
  | null | undefined | number => exact keeps_allocate closed trivial

theorem keeps_setProperty (closed : heap.Closed) (content : Content) (name : Text) {cell : CellId}
    (has : heap.Has cell) : Keeps Anything (setProperty content name cell) heap := by
  cases content with
  | object | function =>
    refine keeps_bind (keeps_modifyProperties closed _ fun _ hasAll => hasAll.insert has name)
      fun _ _ closed _ _ => keeps_pure closed trivial
  | array id =>
    unfold setProperty
    dsimp only
    split
    · exact keeps_bind (keeps_assignElement closed id _ has)
        fun _ _ closed _ _ => keeps_pure closed trivial
    · exact keeps_bind (keeps_modifyProperties closed _ fun _ hasAll => hasAll.insert has name)
        fun _ _ closed _ _ => keeps_pure closed trivial
  | null | undefined | number | text => exact keeps_pure closed trivial

theorem keeps_setCopies (closed : heap.Closed) (target : Content)
    (entries : List (Text × CellId)) : Keeps Anything (setCopies target entries) heap := by
  induction entries generalizing heap with
  | nil => exact keeps_pure closed trivial
  | cons entry rest inductionHypothesis =>
    refine keeps_bind (keeps_copy closed entry.2) fun cell after closed _ made => ?_
    refine keeps_bind (keeps_setProperty closed target entry.1 made) fun _ last closed _ _ => ?_
    exact inductionHypothesis closed

theorem keeps_copyPrototype (closed : heap.Closed) (constructor : FunctionId) (target : Content) :
    Keeps Anything (copyPrototype constructor target) heap := by
  refine keeps_get ?_
  dsimp only
  split
  · split
    · split
      · exact keeps_setCopies closed target _
      · exact keeps_pure closed trivial
    · exact keeps_pure closed trivial
  · exact keeps_pure closed trivial

theorem keeps_copies (closed : heap.Closed) (cells : List CellId) :
    Keeps (fun after copies => ∀ cell ∈ copies, after.Has cell) (cells.mapM copy) heap := by
  induction cells generalizing heap with
  | nil => exact keeps_pure closed (by simp)
  | cons cell rest inductionHypothesis =>
    rw [List.mapM_cons]
    refine keeps_bind (keeps_copy closed cell) fun first after closed _ made => ?_
    refine keeps_bind (inductionHypothesis closed) fun others last closed grows has => ?_
    refine keeps_pure closed fun other member => ?_
    rcases List.mem_cons.mp member with rfl | later
    · exact made.mono grows
    · exact has other later

theorem keeps_arrayOfCopies (closed : heap.Closed) (cells : List CellId) :
    Keeps Has (arrayOfCopies cells) heap := by
  have copies : Keeps (fun after copies => ∀ cell ∈ copies, after.Has cell)
      (cells.toArray.mapM copy) heap := by
    have listed := keeps_copies closed cells
    rw [Array.mapM_eq_mapM_toList]
    exact ⟨listed.closed, listed.grows, fun cell member =>
      listed.result cell (List.mem_toArray.mp member)⟩
  refine keeps_bind copies fun made after closed _ has => ?_
  refine keeps_bind (keeps_newArray closed has) fun _ _ closed _ knows => ?_
  exact keeps_allocateContent closed knows

theorem keeps_firstOrUndefined (closed : heap.Closed) {cells : List CellId}
    (has : ∀ cell ∈ cells, heap.Has cell) : Keeps Has (firstOrUndefined cells) heap := by
  cases cells with
  | nil => exact keeps_allocateContent closed trivial
  | cons cell _ => exact keeps_pure closed (has cell (List.mem_cons_self ..))

end Properties

end Heap

end ScriptEngine
