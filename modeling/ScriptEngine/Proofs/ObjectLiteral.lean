/-
This file is about object literals. The instruction for them looks at all places it is about to take
before it takes any: if one has no key it fails and leaves the machine as it was. Otherwise the
places give way to one new object, with a copy under each key of what the last place with that key
holds, and what is then read under a key is that copy. Which cells the places share, among each
other or with variables, makes no difference, for the object has only cells of its own.
-/

import ScriptEngine.Proofs.Constructing
import ScriptEngine.Proofs.Filling
import ScriptEngine.Proofs.Number.Shortest
import ScriptEngine.Proofs.PropertyAccess
import ScriptEngine.Proofs.ReadOnly

namespace ScriptEngine

namespace Machine

variable {machine : Machine} {instruction : Instruction CellId} {lower : Array Operand}
  {slots : List Operand}

/-! ### The instruction -/

/-- What is put under which key. -/
def keyed (slots : List Operand) : List (Text × CellId) :=
  slots.map fun slot => (slot.key, slot.cell)

theorem map_fst_keyed (slots : List Operand) :
    (keyed slots).map Prod.fst = slots.map Operand.key := by
  rw [keyed, List.map_map]
  rfl

theorem setOperands_eq (target : Content) (slots : List Operand) :
    setOperands target slots = Heap.setCopies target (keyed slots) := by
  induction slots with
  | nil => rfl
  | cons slot rest inductionHypothesis =>
    rw [setOperands, inductionHypothesis]
    rfl

theorem has_keyed {heap : Heap} (made : ∀ slot ∈ slots, heap.Has slot.cell) :
    ∀ entry ∈ keyed slots, heap.Has entry.2 := by
  intro entry member
  obtain ⟨slot, present, rfl⟩ := List.mem_map.mp member
  exact made slot present

/-- The machine once some places have given way to an object. -/
def gathered (machine : Machine) (lower : Array Operand) (slots : List Operand) : Machine :=
  { machine with heap := machine.heap.withCopies (keyed slots) }.showing lower
    { cell := ⟨machine.heap.cells.size⟩ }

/-- The instruction for object literals takes this many places. -/
structure Gathers (instruction : Instruction CellId) (count : Nat) : Prop where
  opcode : instruction.opcode = .poprop
  kind : instruction.datum.kind = .number
  size : Number.size? instruction.datum.number = some count

/-- There is an instruction that `Gathers` every number of places that is a size. -/
theorem gathers_ofNat {count : Nat} (small : count < 2 ^ 24) :
    Gathers { opcode := .poprop, datum := .ofNumber (Number.ofNat count) } count :=
  ⟨rfl, rfl, Number.size?_ofNat small⟩

theorem executePlain_of_gathers {count : Nat} (gathers : Gathers instruction count) :
    executePlain instruction = popProperties count := by
  have counted : countOf instruction.datum = pure count := by
    unfold countOf
    rw [gathers.kind, gathers.size]
  unfold executePlain
  rw [gathers.opcode]
  change countOf instruction.datum >>= popProperties = _
  rw [counted]
  rfl

section Places

variable (operands : machine.operands = lower ++ slots.toArray)
include operands

theorem size_eq_of_places : machine.operands.size = lower.size + slots.length := by
  rw [operands, Array.size_append]
  rfl

/-- The topmost places, which the instruction looks at. -/
theorem extract_places :
    (machine.operands.extract (machine.operands.size - slots.length)).toList = slots := by
  have height : machine.operands.size - slots.length = lower.size := by
    have size := size_eq_of_places operands
    omega
  rw [height, operands]
  simp

theorem shrink_places :
    machine.operands.shrink (machine.operands.size - slots.length) = lower := by
  have height : machine.operands.size - slots.length = lower.size := by
    have size := size_eq_of_places operands
    omega
  apply Array.toList_inj.mp
  rw [height, operands, Array.toList_shrink, Array.toList_append, ← Array.length_toList,
    List.take_left]

theorem popProperties_of_keys (made : ∀ slot ∈ slots, machine.heap.Has slot.cell)
    (keys : ∀ slot ∈ slots, slot.key ≠ []) :
    popProperties slots.length machine = .ok () (machine.gathered lower slots) := by
  have enough : ¬ machine.operands.size < slots.length := by
    have size := size_eq_of_places operands
    omega
  have named : ¬ (slots.any fun slot => slot.key.isEmpty) = true := by
    simpa using keys
  unfold popProperties
  rw [get_bind, if_neg enough, extract_places operands, if_neg named]
  have object : (Heap.allocateObject machine.heap).2.content ⟨machine.heap.cells.size⟩ =
      .object ⟨machine.heap.objects.size⟩ :=
    (Heap.content_allocateObject machine.heap).2
  have built : (do
        let cell ← Heap.allocateObject
        setOperands ((← get).content cell) slots
        return cell : StateM Heap CellId) machine.heap =
      (⟨machine.heap.cells.size⟩, machine.heap.withCopies (keyed slots)) := by
    change (_, (setOperands ((Heap.allocateObject machine.heap).2.content
      ⟨machine.heap.cells.size⟩) slots (Heap.allocateObject machine.heap).2).2) = _
    rw [object, setOperands_eq, Heap.setCopies_newObject (has_keyed made)]
  rw [onHeap_bind, built]
  refine (modify_bind _ _ _).trans ?_
  dsimp only
  rw [shrink_places operands]
  exact push_setFlags _

theorem popProperties_of_empty (nameless : ∃ slot ∈ slots, slot.key = []) :
    popProperties slots.length machine =
      .error (.script { cause := .emptyPropertyKey }) machine := by
  have enough : ¬ machine.operands.size < slots.length := by
    have size := size_eq_of_places operands
    omega
  have found : (slots.any fun slot => slot.key.isEmpty) = true := by
    simpa using nameless
  unfold popProperties
  rw [get_bind, if_neg enough, extract_places operands, if_pos found]
  rfl

end Places

/-! ### The object -/

/-- Some places on top of the operands have given way to a new object. Its keys are theirs, in the
order in which they first occur; each is bound to a new writable cell of its own with what the last
place with this key held; and all that there was before is as it was. -/
structure Literal (before : Machine) (lower : Array Operand) (slots : List Operand)
    (object : CellId) (id : ObjectId) (after : Machine) : Prop where
  machine : after = { before with
    heap := after.heap
    operands := lower.push { cell := object }
    flags := { zero := false, construct := before.flags.construct } }
  fresh : ¬ before.heap.Has object ∧ ¬ before.heap.Knows (.object id)
  holds : after.heap.cell object = { content := .object id }
  keys : (after.heap.object id).keys = (slots.map Operand.key).eraseDups
  bound : ∀ earlier slot later, slots = earlier ++ slot :: later →
    slot.key ∉ later.map Operand.key →
    ∃ cell, (after.heap.object id).get? slot.key = some cell ∧ ¬ before.heap.Has cell ∧
      cell ≠ object ∧ after.heap.cell cell = { content := before.heap.content slot.cell }
  apart : ∀ name other cell, (after.heap.object id).get? name = some cell →
    (after.heap.object id).get? other = some cell → name = other
  cells : ∀ cell, before.heap.Has cell → after.heap.cell cell = before.heap.cell cell
  objects : ∀ other, before.heap.Knows (.object other) →
    after.heap.object other = before.heap.object other
  arrays : after.heap.arrays = before.heap.arrays
  functions : after.heap.functions = before.heap.functions

theorem literal_gathered (machine : Machine) (lower : Array Operand) (slots : List Operand) :
    Literal machine lower slots ⟨machine.heap.cells.size⟩ ⟨machine.heap.objects.size⟩
      (machine.gathered lower slots) := by
  have names := map_fst_keyed slots
  have table : (machine.gathered lower slots).heap.object ⟨machine.heap.objects.size⟩ =
      Table.empty.bindAll (machine.heap.cells.size + 1) (slots.map Operand.key) := by
    rw [← names]
    exact Heap.object_withCopies
  constructor
  case machine =>
    have truth : ((machine.heap.withCopies (keyed slots)).content
        ⟨machine.heap.cells.size⟩).truthy = true := by
      unfold Heap.content
      rw [Heap.cell_withCopies_object]
      rfl
    unfold gathered showing
    dsimp only
    rw [truth]
    rfl
  case fresh => exact ⟨Nat.lt_irrefl _, Nat.lt_irrefl _⟩
  case holds => exact Heap.cell_withCopies_object
  case keys => rw [table, Table.keys_bindAll]
  case bound =>
    rintro earlier slot later rfl latest
    refine ⟨⟨machine.heap.cells.size + 1 + earlier.length⟩, ?_, ?_, ?_, ?_⟩
    · rw [table, List.map_append, List.map_cons, Table.get?_bindAll_last latest, List.length_map]
    · unfold Heap.Has
      dsimp only
      omega
    · intro same
      have := CellId.mk.inj same
      omega
    · have present : (keyed (earlier ++ slot :: later))[earlier.length]? =
          some (slot.key, slot.cell) := by
        simp [keyed]
      exact Heap.cell_withCopies_copy present
  case apart =>
    intro name other cell found found'
    rw [table] at found found'
    exact Table.eq_of_get?_bindAll found found'
  case cells => exact fun cell has => Heap.cell_withCopies_of_has has
  case objects =>
    exact fun other known => Heap.object_of_knows known rfl
  case arrays => rfl
  case functions => rfl

/-! ### Reading it -/

/-- A property has been read of an object: its cell is on top of the operands that are left, the
object is on top of the receivers, and no table and no element has changed. -/
structure Found (before : Machine) (lower : Array Operand) (object cell : CellId)
    (after : Machine) : Prop where
  operands : after.operands = lower.push { cell }
  receivers : after.receivers = before.receivers.push object
  objects : after.heap.objects = before.heap.objects
  arrays : after.heap.arrays = before.heap.arrays
  functions : after.heap.functions = before.heap.functions

theorem found_reading {object cell : CellId} {id : ObjectId} {name : Text}
    (holds : machine.heap.content object = .object id)
    (bound : (machine.heap.object id).get? name = some cell) :
    Found machine lower object cell (machine.reading lower object name) := by
  have read : Heap.getProperty (machine.heap.content object) name machine.heap =
      (cell, machine.heap) := by
    rw [holds]
    change Heap.slot _ (machine.heap.object id) name machine.heap = _
    unfold Heap.slot
    rw [bound]
    rfl
  unfold reading Heap.propertyOf
  rw [read]
  exact ⟨rfl, rfl, rfl, rfl, rfl⟩

/-- A cell that is pushed for the text of a key is the key. -/
theorem text_texting (machine : Machine) (text : Text) :
    (machine.texting text).heap.text ⟨machine.heap.cells.size⟩ = text := by
  have holds : (machine.texting text).heap.content ⟨machine.heap.cells.size⟩ = .text text :=
    congrArg Cell.content (Heap.cell_allocate { content := .text text } machine.heap)
  unfold Heap.text Heap.render
  rw [holds, Heap.renderWithin]

/-- Under each key of a literal both ways of reading have `Found` the cell that it is bound to. -/
structure Reads (machine : Machine) (lower : Array Operand) (object : CellId) (name : Text)
    (cell : CellId) : Prop where
  property : ∀ reading, reading.opcode = .replprop → reading.datum.Names name →
    ∃ after, execute reading machine = .ok .done after ∧ Found machine lower object cell after
  element : ∀ pushing reading, pushing.opcode = .push → pushing.datum.kind = .text →
    pushing.datum.text = name → reading.opcode = .index →
    ∃ middle after, execute pushing machine = .ok .done middle ∧
      execute reading middle.stepped = .ok .done after ∧ Found machine lower object cell after

theorem reads_of_bound {object cell : CellId} {id : ObjectId} {name : Text}
    (operands : machine.operands = lower.push { cell := object })
    (has : machine.heap.Has object) (holds : machine.heap.content object = .object id)
    (bound : (machine.heap.object id).get? name = some cell) :
    Reads machine lower object name cell := by
  constructor
  case property =>
    intro reading isReading names
    exact ⟨_, execute_replprop isReading names operands, found_reading holds bound⟩
  case element =>
    rintro pushing reading isPush isText rfl isReading
    have pushed : (machine.texting pushing.datum.text).stepped.operands =
        (lower.push { cell := object }).push { cell := ⟨machine.heap.cells.size⟩ } := by
      rw [operands_stepped, ← operands]
      rfl
    have still : (machine.texting pushing.datum.text).stepped.heap.content object =
        .object id := by
      rw [heap_stepped, ← holds]
      exact congrArg Cell.content (Heap.cell_of_has has Array.append_singleton.symm)
    have table : ((machine.texting pushing.datum.text).stepped.heap.object id).get?
        pushing.datum.text = some cell := by
      rw [heap_stepped]
      exact bound
    have found : Found _ lower object cell _ := found_reading still table
    refine ⟨_, _, execute_push_text isPush isText, execute_index isReading pushed, ?_⟩
    rw [heap_stepped, text_texting]
    refine ⟨found.operands, found.receivers.trans ?_, found.objects.trans ?_,
      found.arrays.trans ?_, found.functions.trans ?_⟩
    · rw [receivers_stepped]
      rfl
    · rw [heap_stepped]
      rfl
    · rw [heap_stepped]
      rfl
    · rw [heap_stepped]
      rfl

/-! ### Round trip -/

/-- The places on top of the operands that an instruction `Gathers`, whatever cells and keys they
have, give way to an object that is the `Literal` of them, and that gives every key its cell back,
`Reads`, if all of them have keys. If one has none, nothing changes at all. -/
theorem objectLiteral (gathers : Gathers instruction slots.length)
    (operands : machine.operands = lower ++ slots.toArray)
    (made : ∀ slot ∈ slots, machine.heap.Has slot.cell) :
    ((∀ slot ∈ slots, slot.key ≠ []) →
      ∃ object id after, execute instruction machine = .ok .done after ∧
        Literal machine lower slots object id after ∧
        ∀ name ∈ slots.map Operand.key, ∃ cell,
          (after.heap.object id).get? name = some cell ∧
            Reads after.stepped lower object name cell) ∧
      ((∃ slot ∈ slots, slot.key = []) →
        execute instruction machine =
          .error (.script { cause := .emptyPropertyKey }) machine) := by
  have noCall : instruction.opcode ≠ .call := by
    rw [gathers.opcode]
    exact Opcode.noConfusion
  refine ⟨fun keys => ?_, fun nameless => ?_⟩
  · have literal := literal_gathered machine lower slots
    have popped := popProperties_of_keys operands made keys
    rw [← executePlain_of_gathers gathers] at popped
    refine ⟨_, _, _, execute_of_plain noCall popped, literal, fun name member => ?_⟩
    have known := List.mem_eraseDups.mpr member
    rw [← literal.keys] at known
    obtain ⟨cell, bound⟩ := Table.exists_get?_of_mem_keys known
    have holds : (machine.gathered lower slots).stepped.heap.content ⟨machine.heap.cells.size⟩ =
        .object ⟨machine.heap.objects.size⟩ := by
      rw [heap_stepped]
      exact congrArg Cell.content literal.holds
    refine ⟨cell, bound, reads_of_bound ?_ ?_ holds ?_⟩
    · rw [operands_stepped]
      rfl
    · rw [heap_stepped]
      exact Heap.has_withCopies_object
    · rw [heap_stepped]
      exact bound
  · have failed := popProperties_of_empty operands nameless
    rw [← executePlain_of_gathers gathers] at failed
    rw [execute_of_noCall noCall]
    exact bind_of_error failed

/-- Places for a literal: two with the same key, one of which shares its cell with the place between
them. -/
def sharingSlots : List Operand :=
  [{ cell := ⟨1⟩, key := "a" }, { cell := ⟨2⟩, key := "b" }, { cell := ⟨2⟩, key := "a" }]

/-- A machine with these places on top of its operands. -/
def sharingMachine : Machine where
  heap := { cells := #[{}, { content := .null }, { content := .text "x", readOnly := true }] }
  scopes := { receiver := ⟨0⟩ }
  operands := #[{ cell := ⟨0⟩ }] ++ sharingSlots.toArray

theorem objectLiteral_sharingMachine :
    ∃ id after cell,
      execute { opcode := .poprop, datum := .ofNumber (Number.ofNat 3) } sharingMachine =
        .ok .done after ∧
      (after.heap.object id).keys = ["a", "b"] ∧ (after.heap.object id).get? "a" = some cell ∧
      after.heap.cell cell = { content := .text "x" } := by
  have gathers : Gathers { opcode := .poprop, datum := .ofNumber (Number.ofNat 3) }
      sharingSlots.length := gathers_ofNat (by decide)
  have operands : sharingMachine.operands = #[{ cell := ⟨0⟩ }] ++ sharingSlots.toArray := rfl
  have made : ∀ slot ∈ sharingSlots, sharingMachine.heap.Has slot.cell := by
    unfold Heap.Has
    decide
  obtain ⟨object, id, after, executed, literal, _⟩ :=
    (objectLiteral gathers operands made).1 (by decide)
  obtain ⟨cell, bound, _, _, holds⟩ := literal.bound [{ cell := ⟨1⟩, key := "a" },
    { cell := ⟨2⟩, key := "b" }] { cell := ⟨2⟩, key := "a" } [] rfl (by decide)
  exact ⟨id, after, cell, executed, literal.keys, bound, holds⟩

end Machine

end ScriptEngine
