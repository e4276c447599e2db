/-
This file is about arrays. An array keeps its elements in a list and what it has under other names
in a table. A name addresses an element when it is the numeral of a position below the bound on
sizes, as numerals are printed, so no element has two names, and the table has none of these names.
Whatever is done to an array, its list has no gaps and gets no shorter. It gets as long as the
position asks for that is read or assigned, and a position gives up its cell only when it is
assigned.
-/

import ScriptEngine.Proofs.Assignment
import ScriptEngine.Proofs.Steady
import ScriptEngine.Proofs.Text.Integers

namespace ScriptEngine

/-! ### Names of elements -/

/-- The names of elements, by `arrayIndex?`, are the numerals of positions, written as these are
printed. -/
theorem arrayIndex?_eq_some_iff {name : Text} {position : ℕ} :
    arrayIndex? name = some position ↔
      name = Text.ofNat position ∧ position < Number.sizeBound := by
  unfold arrayIndex?
  constructor
  · intro index
    split at index
    case isTrue => cases index
    case isFalse plain =>
      have noZero : 1 < name.length → name.head? ≠ some 48 :=
        fun long zero => plain (.inr ⟨long, zero⟩)
      split at index
      case h_1 value read =>
        obtain ⟨isDigits, rfl⟩ := Text.digits?_eq_some_iff.mp read
        split at index
        · case isTrue small =>
            cases index
            exact ⟨(Text.ofNat_digitsValue isDigits noZero).symm, small⟩
        · cases index
      case h_2 => cases index
  · rintro ⟨rfl, small⟩
    have plain : ¬ (Text.ofNat position = [] ∨
        1 < (Text.ofNat position).length ∧ (Text.ofNat position).head? = some 48) := by
      rintro (empty | ⟨long, zero⟩)
      · exact Text.ofNat_ne_nil position empty
      · refine Text.head?_ofNat (Nat.pos_of_ne_zero fun none => ?_) zero
        rw [none] at long
        exact absurd long (by decide)
    rw [if_neg plain, Text.digits?_ofNat]
    exact if_pos small

example : arrayIndex? "16777215" = some 16777215 ∧ arrayIndex? "16777216" = none ∧
    arrayIndex? "07" = none ∧ arrayIndex? "+7" = none := by decide +kernel

/-- How long an array is at least once a name has been looked up in it. -/
def reachOf (name : Text) : ℕ :=
  match arrayIndex? name with
  | some position => position + 1
  | none => 0

namespace Heap

variable {before middle after heap : Heap} {id : ArrayId} {name : Text} {position : ℕ}
  {cell : CellId}

/-! ### Arrays in memory -/

/-- An array is as arrays are: all its elements have been made, and its table has no name of an
element. -/
structure ArraySound (heap : Heap) (id : ArrayId) : Prop where
  known : heap.Knows (.array id)
  cells : ∀ cell ∈ (heap.array id).elements, heap.Has cell
  table : ∀ name, arrayIndex? name ≠ none → (heap.array id).properties.get? name = none

/-- What happens to an array when something is done to it. It gets as long as what is done reaches,
with new cells that hold undefined, and keeps its other cells where nothing is assigned. -/
structure ArrayEffect (id : ArrayId) (reach : ℕ) (assigned : ℕ → Prop) (before after : Heap) :
    Prop where
  sound : after.ArraySound id
  cells : before.cells.toList <+: after.cells.toList
  size : (after.array id).elements.size = max (before.array id).elements.size reach
  kept : ∀ position < (before.array id).elements.size, ¬ assigned position →
    (after.array id).elements[position]? = (before.array id).elements[position]?
  fresh : ∀ position cell, (before.array id).elements.size ≤ position → ¬ assigned position →
    (after.array id).elements[position]? = some cell →
    ¬ before.Has cell ∧ after.cell cell = { content := .undefined }

theorem ArraySound.of_same (sound : before.ArraySound id) (same : after.array id = before.array id)
    (grows : before.Grows after) : after.ArraySound id := by
  refine ⟨sound.known.mono grows, fun cell member => ?_, fun name index => ?_⟩
  · rw [same] at member
    exact (sound.cells cell member).mono grows
  · rw [same]
    exact sound.table name index

namespace ArrayEffect

variable {reach reach' : ℕ} {assigned assigned' : ℕ → Prop}

/-- Where the list of elements stays, nothing has happened to the array, which is an `ArrayEffect`
that reaches nothing. -/
theorem of_elements (sound : after.ArraySound id)
    (cells : before.cells.toList <+: after.cells.toList)
    (same : (after.array id).elements = (before.array id).elements) :
    ArrayEffect id 0 (fun _ => False) before after := by
  refine ⟨sound, cells, ?_, fun position _ _ => ?_, fun position cell beyond _ found => ?_⟩
  · rw [same, Nat.max_zero]
  · rw [same]
  · rw [same, Array.getElem?_eq_none beyond] at found
    cases found

theorem refl (sound : heap.ArraySound id) : ArrayEffect id 0 (fun _ => False) heap heap :=
  of_elements sound List.prefix_rfl rfl

theorem trans (first : ArrayEffect id reach assigned before middle)
    (second : ArrayEffect id reach' assigned' middle after) :
    ArrayEffect id (max reach reach') (fun position => assigned position ∨ assigned' position)
      before after := by
  have longer : (before.array id).elements.size ≤ (middle.array id).elements.size :=
    first.size ▸ Nat.le_max_left _ _
  refine ⟨second.sound, first.cells.trans second.cells, ?_, fun position within free => ?_,
    fun position cell beyond free found => ?_⟩
  · rw [second.size, first.size, Nat.max_assoc]
  · obtain ⟨free, free'⟩ := not_or.mp free
    exact (second.kept position (by omega) free').trans (first.kept position within free)
  · obtain ⟨free, free'⟩ := not_or.mp free
    by_cases within : position < (middle.array id).elements.size
    · rw [second.kept position within free'] at found
      have has := first.sound.cells cell (Array.mem_of_getElem? found)
      obtain ⟨new, undefined⟩ := first.fresh position cell beyond free found
      exact ⟨new, (cell_of_isPrefix second.cells has).2.trans undefined⟩
    · obtain ⟨new, undefined⟩ :=
        second.fresh position cell (Nat.le_of_not_lt within) free' found
      exact ⟨fun has => new (cell_of_isPrefix first.cells has).1, undefined⟩

/-- Of an `ArrayEffect` only what is reached and what is assigned counts. -/
theorem congr (effect : ArrayEffect id reach assigned before after) (same : reach = reach')
    (alike : ∀ position, assigned position ↔ assigned' position) :
    ArrayEffect id reach' assigned' before after := by
  obtain rfl : assigned = assigned' := funext fun position => propext (alike position)
  exact same ▸ effect

end ArrayEffect

/-! ### Changes of an array -/

theorem array_modifyArray_self (known : heap.Knows (.array id)) (change : ArrayBody → ArrayBody) :
    (modifyArray id change heap).2.array id = change (heap.array id) :=
  getD_modify_self known change {}

theorem knows_modifyArray (known : heap.Knows (.array id)) (change : ArrayBody → ArrayBody) :
    (modifyArray id change heap).2.Knows (.array id) :=
  Nat.lt_of_lt_of_eq known Array.size_modify.symm

theorem array_growArray (known : heap.Knows (.array id)) (size : ℕ) :
    (growArray id size heap).2.array id =
      { heap.array id with
        elements := (heap.array id).elements ++
          idsFrom heap.cells.size (size - (heap.array id).elements.size) } := by
  rw [growArray_eq]
  exact array_modifyArray_self known _

/-- The cells of an array that gets longer, `growArray`, hold undefined. -/
theorem cell_growArray {size : ℕ} (new : heap.cells.size ≤ cell.index) :
    (growArray id size heap).2.cell cell = { content := .undefined } := by
  change (heap.cells ++ Array.replicate (size - (heap.array id).elements.size) ({} : Cell)).getD
    cell.index {} = {}
  rw [Array.getD_eq_getD_getElem?, Array.getElem?_append_right new, Array.getElem?_replicate]
  split <;> rfl

theorem effect_growArray (sound : heap.ArraySound id) (size : ℕ) :
    ArrayEffect id size (fun _ => False) heap (growArray id size heap).2 := by
  have grown := array_growArray sound.known size
  have cells := size_cells_growArray id size heap
  have count (start more : ℕ) : (idsFrom start more).size = more := by simp [idsFrom]
  refine ⟨⟨?_, fun cell member => ?_, fun name index => ?_⟩, appends_growArray id size heap, ?_,
    fun position within _ => ?_, fun position cell beyond _ found => ?_⟩
  · rw [growArray_eq]
    exact knows_modifyArray sound.known _
  · rw [grown] at member
    rcases Array.mem_append.mp member with old | new
    · exact ((appends_growArray id size).cell (sound.cells cell old)).1
    · obtain ⟨place, found⟩ := Array.mem_iff_getElem?.mp new
      have bounds := getElem?_idsFrom found
      change cell.index < (growArray id size heap).2.cells.size
      omega
  · rw [grown]
    exact sound.table name index
  · rw [grown, Array.size_append, count]
    omega
  · rw [grown]
    exact Array.getElem?_append_left within
  · rw [grown, Array.getElem?_append_right beyond] at found
    have bounds := getElem?_idsFrom found
    have new : heap.cells.size ≤ cell.index := by omega
    exact ⟨Nat.not_lt.mpr new, cell_growArray new⟩

/-- The `ArrayEffect` of putting a cell at a position, `assignElement`. -/
theorem effect_assignElement (sound : heap.ArraySound id) (has : heap.Has cell)
    (position : ℕ) :
    ArrayEffect id (position + 1) (· = position) heap (assignElement id position cell heap).2 ∧
      ((assignElement id position cell heap).2.array id).elements[position]? = some cell := by
  have first := effect_growArray sound (position + 1)
  have within := lt_size_growArray sound.known position
  have assigned := array_modifyArray_self first.sound.known fun body =>
    { body with elements := body.elements.setIfInBounds position cell }
  rw [assignElement_eq]
  refine ⟨⟨⟨knows_modifyArray first.sound.known _, fun other member => ?_, fun name index => ?_⟩,
    first.cells, ?_, fun place short other => ?_, fun place known beyond other found => ?_⟩, ?_⟩
  · rw [assigned] at member
    rcases Array.mem_or_eq_of_mem_setIfInBounds member with old | rfl
    · exact first.sound.cells other old
    · exact (cell_of_isPrefix first.cells has).1
  · rw [assigned]
    exact first.sound.table name index
  · rw [assigned, Array.size_setIfInBounds]
    exact first.size
  · rw [assigned, Array.getElem?_setIfInBounds_ne (Ne.symm other)]
    exact first.kept place short not_false
  · rw [assigned, Array.getElem?_setIfInBounds_ne (Ne.symm other)] at found
    exact first.fresh place known beyond not_false found
  · rw [assigned]
    exact Array.getElem?_setIfInBounds_self_of_lt within

/-- The `ArrayEffect` of binding a name that addresses no element. -/
theorem effect_insert (sound : heap.ArraySound id) (other : arrayIndex? name = none)
    (cell : CellId) :
    ArrayEffect id 0 (fun _ => False) heap
      (modifyProperties (.array id) (fun table => table.insert name cell) heap).2 := by
  have changed := array_modifyArray_self sound.known fun body =>
    { body with properties := body.properties.insert name cell }
  refine .of_elements ⟨knows_modifyArray sound.known _, fun cell member => ?_,
    fun known index => ?_⟩ List.prefix_rfl (elements_modifyProperties ..)
  · rw [elements_modifyProperties] at member
    exact sound.cells cell member
  · have different : known ≠ name := by
      rintro rfl
      exact index other
    change ((modifyArray id _ heap).2.array id).properties.get? known = none
    rw [changed]
    exact (Table.get?_insert_other _ _ _ _ different).trans (sound.table known index)

/-- A cell is made, and the array stays as it is. -/
theorem effect_allocate (sound : heap.ArraySound id) (made : Cell) :
    ArrayEffect id 0 (fun _ => False) heap (allocate made heap).2 := by
  refine .of_elements (sound.of_same rfl ?_) (appends_allocate made heap) rfl
  refine ⟨?_, Nat.le_refl _, Nat.le_refl _, Nat.le_refl _⟩
  exact (Nat.le_succ _).trans (Nat.le_of_eq (Array.size_push made).symm)

/-! ### Operations on an array -/

theorem effect_slot (sound : heap.ArraySound id) (other : arrayIndex? name = none) :
    ArrayEffect id 0 (fun _ => False) heap
      (slot (.array id) (heap.array id).properties name heap).2 := by
  unfold slot
  cases found : (heap.array id).properties.get? name with
  | some cell => exact .refl sound
  | none =>
    have made := effect_allocate sound { content := .undefined }
    exact (made.trans (effect_insert made.sound other ⟨heap.cells.size⟩)).congr rfl (by simp)

theorem effect_getProperty (sound : heap.ArraySound id) (name : Text) :
    ArrayEffect id (reachOf name) (fun _ => False) heap (getProperty (.array id) name heap).2 := by
  change ArrayEffect id (reachOf name) (fun _ => False) heap (arrayProperty id name heap).2
  unfold arrayProperty reachOf
  cases index : arrayIndex? name with
  | some position => exact effect_growArray sound (position + 1)
  | none =>
    dsimp only
    split
    · exact effect_allocate sound _
    · exact effect_slot sound index

theorem effect_setProperty (sound : heap.ArraySound id) (has : heap.Has cell) (name : Text) :
    ArrayEffect id (reachOf name) (fun position => arrayIndex? name = some position) heap
      (setProperty (.array id) name cell heap).2 := by
  unfold setProperty reachOf
  cases index : arrayIndex? name with
  | some position =>
    exact (effect_assignElement sound has position).1.congr rfl fun place => by simp [eq_comm]
  | none => exact (effect_insert sound index cell).congr rfl fun place => by simp

end Heap

namespace Machine

variable {machine : Machine} {id : ArrayId}

/-! ### Moving operands into an array -/

/-- How many operands an instruction asks to be moved; none, if its own operand is no count. -/
def moved (instruction : Instruction CellId) : ℕ :=
  if instruction.datum.kind = .number then instruction.datum.countOrZero else 0

theorem countOf_moved (instruction : Instruction CellId) :
    countOf instruction.datum = pure (moved instruction) ∨
      moved instruction = 0 ∧
        ∃ malformation, countOf instruction.datum = malformed malformation := by
  unfold countOf moved Datum.countOrZero
  split
  case h_1 count kind size =>
    left
    rw [if_pos kind, size]
    rfl
  case h_2 refused =>
    refine .inr ⟨?_, _, rfl⟩
    split
    · case isTrue kind =>
        cases size : Number.size? instruction.datum.number with
        | none => rfl
        | some count => exact absurd size (refused count kind)
    · rfl

/-- The `ArrayEffect` of `moveIntoArray`: operands are taken from the top and put at positions from
the last downward, as long as there are any. -/
theorem effect_moveIntoArray (sound : machine.heap.ArraySound id) (count : ℕ) :
    Heap.ArrayEffect id (if machine.operands.size = 0 then 0 else count)
      (fun position => position < count ∧ count ≤ position + machine.operands.size)
      machine.heap (leftBy (moveIntoArray id count) machine).heap := by
  induction count generalizing machine with
  | zero => exact (Heap.ArrayEffect.refl sound).congr (by simp) (by simp)
  | succ count inductionHypothesis =>
    cases topmost : machine.operands.back? with
    | none =>
      have empty : machine.operands.size = 0 := by simpa using topmost
      rw [moveIntoArray, leftBy_of_error (bind_of_error (pop_of_none topmost)), if_pos empty]
      refine (Heap.ArrayEffect.refl sound).congr rfl fun position => ⟨False.elim, ?_⟩
      rintro ⟨below, above⟩
      omega
    | some operand =>
      obtain ⟨lower, operands⟩ := Array.back?_eq_some_iff.mp topmost
      let copied := Heap.copy operand.cell machine.heap
      let put := Heap.assignElement id count copied.1 copied.2
      have first := Heap.effect_allocate sound { content := machine.heap.content operand.cell }
      have has : copied.2.Has copied.1 :=
        Nat.lt_of_lt_of_eq (Nat.lt_succ_self _) (Array.size_push _).symm
      have second := (Heap.effect_assignElement first.sound has count).1
      let middle : Machine := { machine with operands := lower, heap := put.2 }
      have third := inductionHypothesis (show middle.heap.ArraySound id from second.sound)
      have left : leftBy (moveIntoArray id (count + 1)) machine =
          leftBy (moveIntoArray id count) middle := by
        rw [moveIntoArray, leftBy_bind_of_ok (pop_of_some topmost), operands, Array.pop_push]
        rfl
      have size : machine.operands.size = middle.operands.size + 1 := by
        rw [operands, Array.size_push]
      rw [left]
      refine ((first.trans second).trans third).congr ?_ fun position => ?_
      · rw [if_neg (by omega : machine.operands.size ≠ 0)]
        split <;> omega
      · rw [false_or]
        omega

theorem effect_execute_cpya {instruction : Instruction CellId}
    (isMove : instruction.opcode = .cpya)
    (refers : machine.accumulator.map machine.heap.content = some (.array id))
    (sound : machine.heap.ArraySound id) :
    Heap.ArrayEffect id (if machine.operands.size = 0 then 0 else moved instruction)
      (fun position => position < moved instruction ∧
        moved instruction ≤ position + machine.operands.size)
      machine.heap (leftBy (execute instruction) machine).heap := by
  have plain : execute instruction = do fillAccumulator instruction.datum; return .done := by
    unfold execute executePlain
    rw [isMove]
  have left : leftBy (execute instruction) machine =
      leftBy (fillAccumulator instruction.datum) machine := by
    rw [plain]
    rcases leftBy_bind (fillAccumulator instruction.datum) (fun _ => pure Flow.done) machine with
      same | ⟨_, same⟩
    · exact same
    · exact same
  have filled : fillAccumulator instruction.datum machine =
      (do moveIntoArray id (← countOf instruction.datum)) machine := by
    unfold fillAccumulator
    rw [get_bind, refers]
  rcases countOf_moved instruction with counts | ⟨none, malformation, fails⟩
  · have moves : fillAccumulator instruction.datum machine =
        moveIntoArray id (moved instruction) machine := by
      rw [filled, counts]
      rfl
    rw [left, leftBy, moves]
    exact effect_moveIntoArray sound (moved instruction)
  · have fault : fillAccumulator instruction.datum machine =
        .error (.malformed machine.place malformation) machine := by
      rw [filled, fails]
      rfl
    rw [left, leftBy_of_error fault, none]
    exact (Heap.ArrayEffect.refl sound).congr (by simp) (by simp)

end Machine

/-! ### Sequences of operations -/

/-- What is done to an array: a name is read or a position is assigned, in the array itself or
through the value that refers to it, or operands are moved into the array. -/
inductive ArrayOperation where
  | read (name : Text)
  | assign (position : ℕ) (cell : CellId)
  | get (name : Text)
  | set (name : Text) (cell : CellId)
  | move (count available : ℕ)

namespace ArrayOperation

/-- How long an array is at least after an operation: one more than the last position that is read
or assigned. -/
def reach : ArrayOperation → ℕ
  | .read name | .get name | .set name _ => reachOf name
  | .assign position _ => position + 1
  | .move count available => if available = 0 then 0 else count

/-- The positions that an operation assigns. -/
def Assigns : ArrayOperation → ℕ → Prop
  | .read _, _ | .get _, _ => False
  | .assign position _, place => place = position
  | .set name _, place => arrayIndex? name = some place
  | .move count available, place => place < count ∧ count ≤ place + available

end ArrayOperation

namespace Heap

variable {start before heap after : Heap} {id : ArrayId} {name : Text} {position : ℕ}
  {cell : CellId} {operation : ArrayOperation} {operations later : List ArrayOperation}

/-- An operation on an array leads from one memory to another. Moving operands is what an
instruction does, whether it fails or not, when the accumulator refers to the array. -/
inductive ArrayStep (id : ArrayId) (before : Heap) : ArrayOperation → Heap → Prop
  | read (name : Text) : ArrayStep id before (.read name) (arrayProperty id name before).2
  | assign (position : ℕ) (cell : CellId) (has : before.Has cell) :
    ArrayStep id before (.assign position cell) (assignElement id position cell before).2
  | get (name : Text) : ArrayStep id before (.get name) (getProperty (.array id) name before).2
  | set (name : Text) (cell : CellId) (has : before.Has cell) :
    ArrayStep id before (.set name cell) (setProperty (.array id) name cell before).2
  | move (machine : Machine) (instruction : Instruction CellId) (memory : machine.heap = before)
    (isMove : instruction.opcode = .cpya)
    (refers : machine.accumulator.map before.content = some (.array id)) :
    ArrayStep id before (.move (Machine.moved instruction) machine.operands.size)
      (Machine.leftBy (Machine.execute instruction) machine).heap

/-- An `ArrayStep` for each of the operations on an array, one after another. Between them anything
may happen that leaves this array alone and takes nothing out of memory. -/
inductive ArrayRun (id : ArrayId) (start : Heap) : List ArrayOperation → Heap → Prop
  | start : ArrayRun id start [] start
  | operation {operations : List ArrayOperation} {operation : ArrayOperation} {heap after : Heap}
    (run : ArrayRun id start operations heap) (step : ArrayStep id heap operation after) :
    ArrayRun id start (operations ++ [operation]) after
  | elsewhere {operations : List ArrayOperation} {heap after : Heap}
    (run : ArrayRun id start operations heap) (same : after.array id = heap.array id)
    (grows : heap.Grows after) : ArrayRun id start operations after

theorem ArrayStep.effect (step : ArrayStep id before operation after)
    (sound : before.ArraySound id) :
    ArrayEffect id operation.reach operation.Assigns before after := by
  cases step with
  | read name | get name => exact effect_getProperty sound name
  | assign position cell has => exact (effect_assignElement sound has position).1
  | set name cell has => exact effect_setProperty sound has name
  | move machine instruction memory isMove refers =>
    subst memory
    exact Machine.effect_execute_cpya isMove refers sound

namespace ArrayRun

theorem sound (run : ArrayRun id start operations heap) (sound : start.ArraySound id) :
    heap.ArraySound id := by
  induction run with
  | start => exact sound
  | operation run step inductionHypothesis => exact (step.effect inductionHypothesis).sound
  | elsewhere run same grows inductionHypothesis => exact inductionHypothesis.of_same same grows

/-- An array gets no shorter in an `ArrayRun`. -/
theorem size_le (run : ArrayRun id start operations heap) (sound : start.ArraySound id) :
    (start.array id).elements.size ≤ (heap.array id).elements.size := by
  induction run with
  | start => exact Nat.le_refl _
  | operation run step inductionHypothesis =>
    rw [(step.effect (run.sound sound)).size]
    exact inductionHypothesis.trans (Nat.le_max_left _ _)
  | elsewhere run same grows inductionHypothesis => rwa [same]

/-- A position that no operation of an `ArrayRun` `Assigns` keeps its cell. -/
theorem getElem?_of_unassigned (run : ArrayRun id start operations heap)
    (sound : start.ArraySound id) (within : position < (start.array id).elements.size)
    (free : ∀ operation ∈ operations, ¬ operation.Assigns position) :
    (heap.array id).elements[position]? = (start.array id).elements[position]? := by
  induction run with
  | start => rfl
  | operation run step inductionHypothesis =>
    obtain ⟨earlier, last⟩ := List.forall_mem_append.mp free
    have effect := step.effect (run.sound sound)
    have kept := effect.kept position (within.trans_le (run.size_le sound))
      (last _ (List.mem_singleton_self _))
    exact kept.trans (inductionHypothesis earlier)
  | elsewhere run same grows inductionHypothesis =>
    rw [same]
    exact inductionHypothesis free

end ArrayRun

theorem arraySound_newArray {elements : Array CellId} {origin : Heap}
    (made : ∀ cell ∈ elements, origin.Has cell) :
    (newArray elements origin).2.ArraySound (newArray elements origin).1 := by
  have body : (newArray elements origin).2.array (newArray elements origin).1 = { elements } := by
    change (origin.arrays.push { elements }).getD origin.arrays.size {} = _
    rw [Array.getD_eq_getD_getElem?, Array.getElem?_push_size]
    rfl
  refine ⟨?_, fun cell member => ?_, fun name _ => ?_⟩
  · exact Nat.lt_of_lt_of_eq (Nat.lt_succ_self _) (Array.size_push _).symm
  · rw [body] at member
    exact made cell member
  · rw [body]
    rfl

/-! ### What the names of an array mean -/

/-- A name stands for an element. Whoever reads it finds the cell at the position, and finds it
again as long as the position is not assigned; whoever sets it assigns the position. -/
structure NamesElement (heap : Heap) (id : ArrayId) (name : Text) (position : ℕ) : Prop where
  read : ∃ cell after, arrayProperty id name heap = (cell, after) ∧
    (after.array id).elements[position]? = some cell ∧
    ∀ later final, ArrayRun id after later final →
      (∀ operation ∈ later, ¬ operation.Assigns position) →
      arrayProperty id name final = (cell, final)
  set : ∀ cell, heap.Has cell →
    setProperty (.array id) name cell heap = (true, (assignElement id position cell heap).2) ∧
      ((assignElement id position cell heap).2.array id).elements[position]? = some cell

/-- A name stands for an entry of the table, and has nothing to do with the elements. -/
structure NamesEntry (heap : Heap) (id : ArrayId) (name : Text) : Prop where
  read : ∃ cell after, arrayProperty id name heap = (cell, after) ∧
    (after.array id).properties.get? name = some cell ∧
    (after.array id).elements = (heap.array id).elements
  set : ∀ cell, (setProperty (.array id) name cell heap).2.array id =
    { heap.array id with properties := (heap.array id).properties.insert name cell }

/-- Reading a name gives the number of elements, in a read-only cell. -/
def ReadsLength (heap : Heap) (id : ArrayId) (name : Text) : Prop :=
  ∃ cell after, arrayProperty id name heap = (cell, after) ∧
    after.array id = heap.array id ∧
    after.cell cell =
      { content := .number (Float.ofNat (heap.array id).elements.size), readOnly := true }

theorem ArraySound.namesElement (sound : heap.ArraySound id)
    (index : arrayIndex? name = some position) : heap.NamesElement id name position := by
  have other : name ≠ "length" := by
    rintro rfl
    cases index
  have behind : (Content.array id).slotAt name = .element id position := by
    unfold Content.slotAt
    rw [index]
  have held := held_arrayProperty sound.known other
  rw [behind] at held
  constructor
  case read =>
    refine ⟨_, _, rfl, held, fun later final run free => ?_⟩
    have within := (Array.getElem?_eq_some_iff.mp held).1
    have kept :=
      (run.getElem?_of_unassigned (effect_getProperty sound name).sound within free).trans held
    have has : (Content.array id).hasSlot name = true := by simpa [Content.hasSlot] using other
    exact getProperty_of_held has (behind ▸ kept)
  case set =>
    intro cell has
    refine ⟨?_, (effect_assignElement sound has position).2⟩
    unfold setProperty
    rw [index]
    rfl

theorem elements_slot (id : ArrayId) (name : Text) (heap : Heap) :
    ((slot (.array id) (heap.array id).properties name heap).2.array id).elements =
      (heap.array id).elements := by
  unfold slot
  cases (heap.array id).properties.get? name with
  | some cell => rfl
  | none =>
    exact elements_modifyProperties (.array id) (fun table => table.insert name ⟨heap.cells.size⟩)
      { heap with cells := heap.cells.push {} } id

theorem ArraySound.namesEntry (sound : heap.ArraySound id) (index : arrayIndex? name = none)
    (other : name ≠ "length") : heap.NamesEntry id name := by
  have behind : (Content.array id).slotAt name = .property (.array id) name := by
    unfold Content.slotAt
    rw [index]
  have held := held_arrayProperty sound.known other
  rw [behind] at held
  constructor
  case read =>
    refine ⟨_, (arrayProperty id name heap).2, rfl, held, ?_⟩
    have entry : arrayProperty id name heap =
        slot (.array id) (heap.array id).properties name heap := by
      unfold arrayProperty
      rw [index]
      exact congrFun (if_neg other) heap
    rw [entry]
    exact elements_slot id name heap
  case set =>
    intro cell
    unfold setProperty
    rw [index]
    exact array_modifyArray_self sound.known _

theorem readsLength (heap : Heap) (id : ArrayId) : heap.ReadsLength id "length" :=
  ⟨_, _, rfl, rfl, cell_allocate _ heap⟩

/-! ### What arrays are like -/

/-- An array that `newArray` makes and that an `ArrayRun` then reads and assigns, in whatever order,
keeps to the following. Its elements are what the numerals of the positions below the bound stand
for, in the one way in which these are printed (`arrayIndex?`), no such name is in its table, and
its elements have all been made: the array is `Heap.ArraySound`. Whatever is done next has the
`ArrayEffect` of making the array as long as it reaches and no longer, with new cells that hold
undefined, and of leaving the cells at all positions that it does not assign; so has whatever is
done from then on. All other names than numerals stand for the entries of the table, except for the
length. -/
theorem array_representation (elements : Array CellId) (origin : Heap) (id : ArrayId)
    (start : Heap) (made : ∀ cell ∈ elements, origin.Has cell)
    (new : newArray elements origin = (id, start)) (run : ArrayRun id start operations heap) :
    (∀ name position, arrayIndex? name = some position ↔
      name = Text.ofNat position ∧ position < 2 ^ 24) ∧
    heap.ArraySound id ∧
    (∀ operation after, ArrayStep id heap operation after →
      ArrayEffect id operation.reach operation.Assigns heap after) ∧
    (∀ later after, ArrayRun id heap later after →
      (heap.array id).elements.size ≤ (after.array id).elements.size ∧
      ∀ position < (heap.array id).elements.size,
        (∀ operation ∈ later, ¬ operation.Assigns position) →
        (after.array id).elements[position]? = (heap.array id).elements[position]?) ∧
    getProperty (.array id) = arrayProperty id ∧
    (∀ name position, arrayIndex? name = some position → heap.NamesElement id name position) ∧
    (∀ name, arrayIndex? name = none → name ≠ "length" → heap.NamesEntry id name) ∧
    heap.ReadsLength id "length" := by
  have first := arraySound_newArray made
  rw [new] at first
  have sound := run.sound first
  refine ⟨fun name position => arrayIndex?_eq_some_iff, sound,
    fun operation after step => step.effect sound,
    fun later after run => ⟨run.size_le sound, fun position within free =>
      run.getElem?_of_unassigned sound within free⟩,
    rfl, fun name position index => sound.namesElement index,
    fun name index other => sound.namesEntry index other, readsLength heap id⟩

/-- The memory of a new array of two elements. -/
def pairStart : Heap :=
  (newArray (allocateMany 2 {}).1 (allocateMany 2 {}).2).2

/-- A text and a value that refers to the array have been made. -/
def pairHeap : Heap :=
  (allocateContent (.array ⟨0⟩) (allocateContent (.text "ten") pairStart).2).2

/-- The text has been assigned to the first element, and two names have been read. -/
def pairRead : Heap :=
  (arrayProperty ⟨0⟩ "01" (arrayProperty ⟨0⟩ "4" (assignElement ⟨0⟩ 0 ⟨2⟩ pairHeap).2).2).2

/-- A machine that is to move three operands into the array and has two. -/
def pairMachine : Machine where
  heap := pairRead
  scopes := default
  accumulator := some ⟨3⟩
  operands := #[{ cell := ⟨2⟩ }, { cell := ⟨3⟩ }]

def pairMove : Instruction CellId where
  opcode := .cpya
  datum := { kind := .number, number := 3 }

/-- The memory once it has moved these two. -/
def pairMoved : Heap :=
  (Machine.leftBy (Machine.execute pairMove) pairMachine).heap

theorem array_representation_pair :
    ArrayRun ⟨0⟩ pairStart [.assign 0 ⟨2⟩, .read "4", .read "01", .move 3 2] pairMoved ∧
    (pairMoved.array ⟨0⟩).elements.map CellId.index = #[2, 9, 8, 5, 6] ∧
    pairMoved.ArraySound ⟨0⟩ ∧ pairMoved.NamesElement ⟨0⟩ "4" 4 ∧
    pairMoved.NamesEntry ⟨0⟩ "01" ∧ pairMoved.ReadsLength ⟨0⟩ "length" := by
  have made : ∀ cell ∈ (allocateMany 2 {}).1, (allocateMany 2 {}).2.Has cell := by
    intro cell member
    obtain ⟨place, found⟩ := Array.mem_iff_getElem?.mp member
    have bounds : cell.index = 0 + place ∧ place < 2 := getElem?_idsFrom found
    change cell.index < 2
    omega
  have moved : Machine.moved pairMove = 3 := by decide +kernel
  have run : ArrayRun ⟨0⟩ pairStart
      [.assign 0 ⟨2⟩, .read "4", .read "01", .move (Machine.moved pairMove) 2] pairMoved := by
    have furnished : ArrayRun ⟨0⟩ pairStart [] pairHeap :=
      ArrayRun.start.elsewhere rfl (by constructor <;> decide)
    have assigned := furnished.operation (.assign 0 ⟨2⟩ (by change 2 < 4; decide))
    have read := (assigned.operation (.read "4")).operation (.read "01")
    exact read.operation (.move pairMachine pairMove rfl rfl (by decide +kernel))
  rw [moved] at run
  obtain ⟨_, sound, _, _, _, named, entered, length⟩ :=
    array_representation _ _ ⟨0⟩ pairStart made rfl run
  exact ⟨run, by decide +kernel, sound, named "4" 4 (by decide),
    entered "01" (by decide) (by decide), length⟩

end Heap

end ScriptEngine
