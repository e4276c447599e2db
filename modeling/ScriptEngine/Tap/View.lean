/-
This file shows values to a debugging session. A view is a finite tree: an object or an
array that is met again below itself is shown as a mark instead. What counts is the path
from the root, so the same object side by side is shown in full each time, and the objects
and arrays off the path bound the depth of a view.
-/

import ScriptEngine.Value.Rendering

namespace ScriptEngine

/-- What a debugging session sees of a value. -/
inductive View where
  | none
  | bool (value : Bool)
  | integer (value : Int)
  | number (value : Float)
  | text (value : Text)
  | bytes (value : Text)
  | list (items : List View)
  | dictionary (entries : List (View × View))
  | function
  deriving Inhabited

/-- An object or an array. -/
inductive Container where
  | object (id : ObjectId)
  | array (id : ArrayId)
  deriving DecidableEq

namespace Heap

variable {heap : Heap}

/-- All objects and arrays of memory. -/
def containers (heap : Heap) : List Container :=
  (List.range heap.objects.size).map (fun index => .object ⟨index⟩) ++
    (List.range heap.arrays.size).map fun index => .array ⟨index⟩

/-- The objects and arrays of memory that are not on a path. -/
def containersOff (heap : Heap) (path : List Container) : List Container :=
  heap.containers.filter (· ∉ path)

theorem containersOff_cons_length_lt (heap : Heap) (path : List Container) (met : Container)
    (present : met ∈ heap.containers) (fresh : met ∉ path) :
    (heap.containersOff (met :: path)).length < (heap.containersOff path).length := by
  have smaller : heap.containersOff (met :: path) =
      (heap.containersOff path).filter fun other => other ≠ met := by
    unfold containersOff
    rw [List.filter_filter]
    refine List.filter_congr fun other _ => ?_
    simp [List.mem_cons, not_or]
  rw [smaller]
  refine List.length_filter_lt_length_iff_exists.mpr ⟨met, ?_, by simp⟩
  simp only [containersOff, List.mem_filter]
  exact ⟨present, by simpa using fresh⟩

/-- The mark for an object or array that is being shown further up. -/
def circular : View := .text "[circular]"

/-- An object with properties is in memory. -/
theorem object_mem_containers {id : ObjectId} {entry : Text × CellId}
    (member : entry ∈ (heap.object id).entries) : .object id ∈ heap.containers := by
  have present : id.index < heap.objects.size := by
    refine Nat.lt_of_not_le fun absent => ?_
    rw [object, Array.getD_eq_getD_getElem?, Array.getElem?_eq_none absent] at member
    cases member
  exact List.mem_append_left _ (List.mem_map.mpr ⟨id.index, List.mem_range.mpr present, rfl⟩)

/-- An array with elements is in memory. -/
theorem array_mem_containers {id : ArrayId} {element : CellId}
    (member : element ∈ (heap.array id).elements.toList) : .array id ∈ heap.containers := by
  have present : id.index < heap.arrays.size := by
    refine Nat.lt_of_not_le fun absent => ?_
    rw [array, Array.getD_eq_getD_getElem?, Array.getElem?_eq_none absent] at member
    cases member
  exact List.mem_append_right _ (List.mem_map.mpr ⟨id.index, List.mem_range.mpr present, rfl⟩)

/-- The view of a value, given the objects and arrays that are being shown around it. -/
def viewWithin (heap : Heap) (path : List Container) (content : Content) : View :=
  match content with
  | .null | .undefined => .none
  | .number value => .number value
  | .text value => .text value
  | .function id => .text (heap.function id).text
  | .object id =>
    if _ : .object id ∈ path then circular
    else
      .dictionary ((heap.object id).entries.attach.map fun entry =>
        (.text entry.val.1, heap.viewWithin (.object id :: path) (heap.content entry.val.2)))
  | .array id =>
    if _ : .array id ∈ path then circular
    else
      .list ((heap.array id).elements.toList.attach.map fun element =>
        heap.viewWithin (.array id :: path) (heap.content element.val))
termination_by (heap.containersOff path).length
decreasing_by
  · exact containersOff_cons_length_lt heap path _ (object_mem_containers entry.property) ‹_›
  · exact containersOff_cons_length_lt heap path _ (array_mem_containers element.property) ‹_›

/-- The view of a value as it is found with one list of marks for all values: an object or an array
is marked while what it holds is shown one after another, and the mark is taken away behind the last
of that. None is found where calls nest deeper than allowed. -/
def viewMarking (heap : Heap) :
    (depth : Nat) → Content → StateT (List Container) Option View
  | 0, _ => failure
  | depth + 1, content => do
    match content with
    | .null | .undefined => return .none
    | .number value => return .number value
    | .text value => return .text value
    | .function id => return .text (heap.function id).text
    | .object id =>
      if .object id ∈ (← get) then return circular
      modify (.object id :: ·)
      let entries ← (heap.object id).entries.mapM fun (name, cell) => do
        return (View.text name, ← heap.viewMarking depth (heap.content cell))
      modify (·.erase (.object id))
      return .dictionary entries
    | .array id =>
      if .array id ∈ (← get) then return circular
      modify (.array id :: ·)
      let items ← (heap.array id).elements.toList.mapM fun element =>
        heap.viewMarking depth (heap.content element)
      modify (·.erase (.array id))
      return .list items

/-- The view of what a cell holds. -/
def view (heap : Heap) (cell : CellId) : View :=
  heap.viewWithin [] (heap.content cell)

end Heap

/-! ### Values of the host -/

/-- A value that the host shows to a debugging session: data of its own, or cells of scripts. -/
inductive HostValue where
  | none
  | bool (value : Bool)
  | integer (value : Int)
  | number (value : Float)
  | text (value : Text)
  | bytes (value : Text)
  | list (items : List HostValue)
  | dictionary (entries : List (View × HostValue))
  | function
  | cell (id : CellId)
  /-- A value that cannot be shown, by the name of its type. -/
  | unsupported (typeName : Text)
  deriving Inhabited

namespace HostValue

/-- A dictionary whose keys are texts. -/
def record (fields : List (Text × HostValue)) : HostValue :=
  .dictionary (fields.map fun (name, value) => (.text name, value))

/-- The message about a value that cannot be shown. -/
def unsupportedMessage (typeName : Text) : Text :=
  Text.ofString "unsupported type for starlark: " ++ typeName

mutual

/-- The view of a host value, or the name of a type in it that cannot be shown. -/
def view (heap : Heap) : HostValue → Except Text View
  | .none => return .none
  | .bool value => return .bool value
  | .integer value => return .integer value
  | .number value => return .number value
  | .text value => return .text value
  | .bytes value => return .bytes value
  | .list items => return .list (← viewItems heap items)
  | .dictionary entries => return .dictionary (← viewEntries heap entries)
  | .function => return .function
  | .cell id => return heap.view id
  | .unsupported typeName => throw typeName

/-- The views of the items of a list. -/
def viewItems (heap : Heap) : List HostValue → Except Text (List View)
  | [] => return []
  | item :: rest => return (← view heap item) :: (← viewItems heap rest)

/-- The views of the entries of a dictionary. -/
def viewEntries (heap : Heap) : List (View × HostValue) → Except Text (List (View × View))
  | [] => return []
  | (key, value) :: rest => return (key, ← view heap value) :: (← viewEntries heap rest)

end

end HostValue

end ScriptEngine
