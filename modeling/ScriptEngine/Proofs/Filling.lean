/-
This file is about objects that are filled with copies of cells: the object of a literal and the new
receiver of a constructor call. Copies are made one after another and put under their names, so of
two under one name the later one stays, at the place of the earlier one. What comes of a new object
that is filled is given here as the memory there is afterwards.
-/

import Mathlib.Data.List.Induction
import ScriptEngine.Proofs.Closed
import ScriptEngine.Proofs.Holding

namespace ScriptEngine

/-! ### Names in their order -/

namespace Table

variable {table : Table} {name : Text} {cell : CellId}

theorem mem_keys_of_get? (found : table.get? name = some cell) : name ∈ table.keys := by
  obtain ⟨entries⟩ := table
  induction entries with
  | nil => cases found
  | cons entry rest inductionHypothesis =>
    obtain ⟨known, old⟩ := entry
    rw [get?, findEntry?] at found
    split at found
    · rename_i same
      exact List.mem_cons.mpr (.inl same.symm)
    · exact List.mem_cons_of_mem _ (inductionHypothesis found)

theorem exists_get?_of_mem_keys (member : name ∈ table.keys) :
    ∃ cell, table.get? name = some cell := by
  obtain ⟨entries⟩ := table
  induction entries with
  | nil => cases member
  | cons entry rest inductionHypothesis =>
    obtain ⟨known, old⟩ := entry
    rw [get?, findEntry?]
    split
    · exact ⟨old, rfl⟩
    · rename_i other
      rcases List.mem_cons.mp member with same | later
      · exact absurd same.symm other
      · exact inductionHypothesis later

/-- A new name comes last, and a known one stays where it is. -/
theorem entries_insert_of_not_mem (new : name ∉ table.keys) :
    (table.insert name cell).entries = table.entries ++ [(name, cell)] := by
  obtain ⟨entries⟩ := table
  change insertEntry name cell entries = entries ++ [(name, cell)]
  induction entries with
  | nil => rfl
  | cons entry rest inductionHypothesis =>
    obtain ⟨known, old⟩ := entry
    obtain ⟨other, later⟩ := not_or.mp (List.mem_cons.not.mp new)
    rw [insertEntry, if_neg (Ne.symm other), inductionHypothesis later, List.cons_append]

theorem keys_insert (table : Table) (name : Text) (cell : CellId) :
    (table.insert name cell).keys =
      if name ∈ table.keys then table.keys else table.keys ++ [name] := by
  obtain ⟨entries⟩ := table
  change (insertEntry name cell entries).map Prod.fst =
    if name ∈ entries.map Prod.fst then entries.map Prod.fst else entries.map Prod.fst ++ [name]
  induction entries with
  | nil => rfl
  | cons entry rest inductionHypothesis =>
    obtain ⟨known, old⟩ := entry
    by_cases same : known = name
    · simp [insertEntry, same]
    · simp only [insertEntry, if_neg same, List.map_cons, inductionHypothesis, List.mem_cons,
        Ne.symm same, false_or]
      split <;> rfl

/-! ### Binding names to cells in a row -/

/-- The table with names bound, one after another, to cells in a row. -/
def bindAll (table : Table) (start : Nat) : List Text → Table
  | [] => table
  | name :: rest => (table.insert name ⟨start⟩).bindAll (start + 1) rest

theorem bindAll_append (table : Table) (start : Nat) (first second : List Text) :
    table.bindAll start (first ++ second) =
      (table.bindAll start first).bindAll (start + first.length) second := by
  induction first generalizing table start with
  | nil => rfl
  | cons name rest inductionHypothesis =>
    rw [List.cons_append, bindAll, inductionHypothesis, bindAll, List.length_cons]
    congr 1
    omega

theorem bindAll_concat (table : Table) (start : Nat) (names : List Text) (name : Text) :
    table.bindAll start (names ++ [name]) =
      (table.bindAll start names).insert name ⟨start + names.length⟩ :=
  bindAll_append table start names [name]

/-- Names that `bindAll` binds one after another are there in the order in which they first occur.
-/
theorem keys_bindAll (start : Nat) (names : List Text) :
    (empty.bindAll start names).keys = names.eraseDups := by
  induction names using List.reverseRecOn with
  | nil => rfl
  | append_singleton names name inductionHypothesis =>
    have last : ([name].removeAll names).eraseDups = if name ∈ names then [] else [name] := by
      by_cases known : name ∈ names
      · simp [List.removeAll, known]
      · simp [List.removeAll, known, List.eraseDups_cons]
    rw [bindAll_concat, keys_insert, inductionHypothesis, List.eraseDups_append, last]
    simp only [List.mem_eraseDups]
    split
    · rw [List.append_nil]
    · rfl

theorem get?_bindAll_of_not_mem {names : List Text} (absent : name ∉ names) (table : Table)
    (start : Nat) : (table.bindAll start names).get? name = table.get? name := by
  induction names generalizing table start with
  | nil => rfl
  | cons other rest inductionHypothesis =>
    obtain ⟨distinct, later⟩ := not_or.mp (List.mem_cons.not.mp absent)
    rw [bindAll, inductionHypothesis later, get?_insert_other _ _ _ _ distinct]

/-- A name has the cell that `bindAll` has bound it to last. -/
theorem get?_bindAll_last {earlier later : List Text} (latest : name ∉ later) (table : Table)
    (start : Nat) :
    (table.bindAll start (earlier ++ name :: later)).get? name =
      some ⟨start + earlier.length⟩ := by
  rw [bindAll_append, bindAll, get?_bindAll_of_not_mem latest, get?_insert_self]

theorem exists_last_of_mem {names : List Text} (member : name ∈ names) :
    ∃ earlier later, names = earlier ++ name :: later ∧ name ∉ later := by
  obtain ⟨later, earlier, split, latest⟩ :=
    List.eq_append_cons_of_mem (List.mem_reverse.mpr member)
  refine ⟨earlier.reverse, later.reverse, ?_, fun again => latest (List.mem_reverse.mp again)⟩
  rw [← List.reverse_reverse names, split]
  simp

/-- What a name is bound to among cells in a row is the one of its last place. -/
theorem exists_of_get?_bindAll {names : List Text} {start : Nat}
    (found : (empty.bindAll start names).get? name = some cell) :
    ∃ earlier later, names = earlier ++ name :: later ∧ name ∉ later ∧
      cell = ⟨start + earlier.length⟩ := by
  have member : name ∈ names := by
    have known := mem_keys_of_get? found
    rwa [keys_bindAll, List.mem_eraseDups] at known
  obtain ⟨earlier, later, rfl, latest⟩ := exists_last_of_mem member
  rw [get?_bindAll_last latest] at found
  exact ⟨earlier, later, rfl, latest, (Option.some.inj found).symm⟩

/-- Two names that are bound to one of the cells in a row are the same. -/
theorem eq_of_get?_bindAll {names : List Text} {start : Nat} {other : Text}
    (found : (empty.bindAll start names).get? name = some cell)
    (found' : (empty.bindAll start names).get? other = some cell) : name = other := by
  obtain ⟨earlier, later, rfl, _, rfl⟩ := exists_of_get?_bindAll found
  obtain ⟨earlier', later', split, _, place⟩ := exists_of_get?_bindAll found'
  have same : earlier.length = earlier'.length := Nat.add_left_cancel (CellId.mk.inj place)
  exact (List.cons.inj (List.append_inj split same).2).1

/-- Every name in `bindAll` is bound to one of the cells in a row. -/
theorem mem_bindAll {names : List Text} {start : Nat} {entry : Text × CellId}
    (member : entry ∈ (empty.bindAll start names).entries) :
    ∃ place, place < names.length ∧ entry.2 = ⟨start + place⟩ := by
  induction names using List.reverseRecOn with
  | nil => cases member
  | append_singleton names name inductionHypothesis =>
    rw [bindAll_concat] at member
    rw [List.length_append, List.length_singleton]
    rcases mem_insertEntry member with old | rfl
    · obtain ⟨place, within, bound⟩ := inductionHypothesis old
      exact ⟨place, Nat.lt_succ_of_lt within, bound⟩
    · exact ⟨names.length, Nat.lt_succ_self _, rfl⟩

/-- Names without repetitions are bound as they are. -/
theorem entries_bindAll {names : List Text} (distinct : names.Nodup) (start : Nat) :
    (empty.bindAll start names).entries =
      names.mapIdx fun position name => (name, ⟨start + position⟩) := by
  induction names using List.reverseRecOn with
  | nil => rfl
  | append_singleton names name inductionHypothesis =>
    obtain ⟨lower, _, apart⟩ := List.nodup_append.mp distinct
    have new : name ∉ (empty.bindAll start names).keys := by
      rw [keys_bindAll, List.mem_eraseDups]
      exact fun member => apart name member name (List.mem_singleton_self _) rfl
    rw [bindAll_concat, entries_insert_of_not_mem new, inductionHypothesis lower,
      List.mapIdx_append]
    simp

end Table

/-! ### Copies under their names -/

namespace Heap

variable {heap : Heap}

theorem append_singleton_toArray (cell : Cell) (cells : List Cell) :
    #[cell] ++ cells.toArray = (cell :: cells).toArray := by
  simp

/-- The copies of some cells. -/
def copiesOf (heap : Heap) (entries : List (Text × CellId)) : List Cell :=
  entries.map fun entry => { content := heap.content entry.2 }

/-- `setCopies` puts copies under names of an object that are new cells in a row, `copiesOf`. -/
theorem setCopies_object (id : ObjectId) {entries : List (Text × CellId)}
    (made : ∀ entry ∈ entries, heap.Has entry.2) :
    setCopies (.object id) entries heap =
      ((), { heap with
        cells := heap.cells ++ (heap.copiesOf entries).toArray
        objects := heap.objects.modify id.index fun table =>
          table.bindAll heap.cells.size (entries.map Prod.fst) }) := by
  induction entries generalizing heap with
  | nil =>
    have whole : (heap.objects.modify id.index fun table => table) = heap.objects :=
      modify_of_kept (fun _ => rfl) _ _
    change ((), heap) = ((), { heap with
      cells := heap.cells ++ #[], objects := heap.objects.modify id.index fun table => table })
    rw [whole, Array.append_empty]
  | cons entry rest inductionHypothesis =>
    obtain ⟨name, cell⟩ := entry
    let next : Heap :=
      { heap with
        cells := heap.cells.push { content := heap.content cell }
        objects := heap.objects.modify id.index fun table => table.insert name ⟨heap.cells.size⟩ }
    have cells : next.cells = heap.cells ++ #[{ content := heap.content cell }] :=
      Array.append_singleton.symm
    have lower (entry : Text × CellId) (member : entry ∈ rest) : heap.Has entry.2 :=
      made entry (List.mem_cons_of_mem _ member)
    have still : ∀ entry ∈ rest, next.Has entry.2 := by
      intro entry member
      exact Nat.lt_of_lt_of_le (lower entry member) (by simp [next])
    have same : next.copiesOf rest = heap.copiesOf rest := by
      refine List.map_congr_left fun entry member => ?_
      rw [show next.content entry.2 = heap.content entry.2 from
        congrArg Cell.content (cell_of_has (lower entry member) cells)]
    have twice : (next.objects.modify id.index fun table =>
          table.bindAll next.cells.size (rest.map Prod.fst)) =
        heap.objects.modify id.index fun table =>
          table.bindAll heap.cells.size (((name, cell) :: rest).map Prod.fst) := by
      apply Array.ext_getElem?
      intro index
      simp only [next, Array.getElem?_modify, Array.size_push]
      split
      · rw [Option.map_map]
        rfl
      · rfl
    have later := inductionHypothesis still
    rw [same, twice, cells, Array.append_assoc, append_singleton_toArray] at later
    exact later

/-- The memory once a new object has been filled with copies. -/
def withCopies (heap : Heap) (entries : List (Text × CellId)) : Heap :=
  { heap with
    cells := heap.cells ++
      ({ content := .object ⟨heap.objects.size⟩ } :: heap.copiesOf entries).toArray
    objects := heap.objects.push
      (Table.empty.bindAll (heap.cells.size + 1) (entries.map Prod.fst)) }

/-- Filling a new object by `setCopies` with copies of cells that have been made leaves the memory
`withCopies`. -/
theorem setCopies_newObject {entries : List (Text × CellId)}
    (made : ∀ entry ∈ entries, heap.Has entry.2) :
    setCopies (.object ⟨heap.objects.size⟩) entries (allocateObject heap).2 =
      ((), heap.withCopies entries) := by
  have cells : (allocateObject heap).2.cells =
      heap.cells ++ #[{ content := .object ⟨heap.objects.size⟩ }] := Array.append_singleton.symm
  have same : (allocateObject heap).2.copiesOf entries = heap.copiesOf entries := by
    refine List.map_congr_left fun entry member => ?_
    rw [show (allocateObject heap).2.content entry.2 = heap.content entry.2 from
      congrArg Cell.content (cell_of_has (made entry member) cells)]
  have size : (allocateObject heap).2.cells.size = heap.cells.size + 1 := Array.size_push _
  have filled : ((allocateObject heap).2.objects.modify heap.objects.size fun table =>
        table.bindAll (heap.cells.size + 1) (entries.map Prod.fst)) =
      heap.objects.push (Table.empty.bindAll (heap.cells.size + 1) (entries.map Prod.fst)) := by
    change (heap.objects.push {}).modify heap.objects.size _ = _
    apply Array.ext_getElem?
    intro index
    rw [Array.getElem?_modify, Array.getElem?_push, Array.getElem?_push]
    split
    · rename_i last
      rw [if_pos last.symm, if_pos last.symm]
      rfl
    · rename_i other
      rw [if_neg (Ne.symm other), if_neg (Ne.symm other)]
  rw [setCopies_object _ fun entry member =>
    Nat.lt_of_lt_of_le (made entry member) (by rw [size]; exact Nat.le_succ _), same, size, filled,
    cells, Array.append_assoc, append_singleton_toArray]
  rfl

/-! ### The memory afterwards -/

section WithCopies

variable {entries : List (Text × CellId)}

theorem cell_withCopies_of_has {cell : CellId} (has : heap.Has cell) :
    (heap.withCopies entries).cell cell = heap.cell cell :=
  cell_of_has has rfl

theorem has_withCopies_object : (heap.withCopies entries).Has ⟨heap.cells.size⟩ := by
  unfold Heap.Has withCopies
  simp

/-- The cell of the new object. -/
theorem cell_withCopies_object :
    (heap.withCopies entries).cell ⟨heap.cells.size⟩ =
      { content := .object ⟨heap.objects.size⟩ } := by
  unfold Heap.cell withCopies
  simp [Array.getD_eq_getD_getElem?]

theorem object_withCopies :
    (heap.withCopies entries).object ⟨heap.objects.size⟩ =
      Table.empty.bindAll (heap.cells.size + 1) (entries.map Prod.fst) :=
  object_of_made rfl

/-- Each copy is writable and holds what the cell held that it is a copy of. -/
theorem cell_withCopies_copy {position : Nat} {entry : Text × CellId}
    (present : entries[position]? = some entry) :
    (heap.withCopies entries).cell ⟨heap.cells.size + 1 + position⟩ =
      { content := heap.content entry.2 } := by
  unfold Heap.cell withCopies copiesOf
  have place : heap.cells.size + 1 + position = heap.cells.size + (position + 1) := by omega
  simp [Array.getD_eq_getD_getElem?, Array.getElem?_append_right, place, present]

end WithCopies

end Heap

end ScriptEngine
