/-
This file is about assigning to a property. A script reads the property and then stores into the
cell that it has read. Reading an object, a function or an array gives the cell of a slot, and makes
the slot first where there is none: it binds a name, makes an array longer, or gives a function its
prototype. It takes no cell out of another slot. Since the cell takes another content, and no other
slot holds it, the store is seen under this name of the value, and nowhere else. Reading anything
else gives a new read-only cell, and the store does nothing.
-/

import ScriptEngine.Proofs.PropertyAccess
import ScriptEngine.Proofs.ReadOnly
import ScriptEngine.Proofs.WritableSlots

namespace ScriptEngine

open Relation

/-- The slot behind a name of a value. -/
def Content.slotAt (owner : Content) (name : Text) : Slot :=
  match owner with
  | .array id =>
    match arrayIndex? name with
    | some position => .element id position
    | none => .property owner name
  | .object _ | .function _ | .null | .undefined | .number _ | .text _ => .property owner name

/-- Whether there is a slot behind a name of a value, or is one once it has been read. -/
def Content.hasSlot (owner : Content) (name : Text) : Bool :=
  match owner with
  | .object _ | .function _ => true
  | .array _ => name ≠ "length"
  | .null | .undefined | .number _ | .text _ => false

namespace Heap

variable {before middle after heap : Heap} {owner : Content} {name : Text} {cell : CellId}

/-! ### Slots in memory -/

/-- The cell that a property or an element holds. -/
def held (heap : Heap) : Slot → Option CellId
  | .binding _ _ => none
  | .property owner name => (heap.namesOf owner).get? name
  | .element array position => (heap.array array).elements[position]?

/-- Every property and every element keeps its cell. -/
def KeepsSlots (before after : Heap) : Prop :=
  ∀ slot cell, before.held slot = some cell → after.held slot = some cell

theorem KeepsSlots.trans (first : before.KeepsSlots middle) (second : middle.KeepsSlots after) :
    before.KeepsSlots after :=
  fun slot cell held => second slot cell (first slot cell held)

/-- Where no table and no element changes, every slot keeps its cell: it `KeepsSlots`. -/
theorem keepsSlots_of_same (names : ∀ owner, after.namesOf owner = before.namesOf owner)
    (elements : ∀ id, (after.array id).elements = (before.array id).elements) :
    before.KeepsSlots after := by
  intro slot cell held
  cases slot with
  | binding level name => cases held
  | property owner name => exact (congrArg (·.get? name) (names owner)).trans held
  | element id position => exact (congrArg (·[position]?) (elements id)).trans held

theorem keepsSlots_push (heap : Heap) (made : Cell) :
    heap.KeepsSlots { heap with cells := heap.cells.push made } :=
  keepsSlots_of_same (namesOf_withCells _ _) fun _ => rfl

theorem keepsSlots_newObject (heap : Heap) : heap.KeepsSlots (newObject heap).2 :=
  keepsSlots_of_same (namesOf_newObject heap) fun _ => rfl

/-- A name that is bound for the first time takes no cell out of a slot: memory `KeepsSlots`. -/
theorem keepsSlots_insert (absent : (heap.namesOf owner).get? name = none) (new : CellId) :
    heap.KeepsSlots (modifyProperties owner (fun table => table.insert name new) heap).2 := by
  intro slot cell held
  cases slot with
  | binding level known => cases held
  | property other known =>
    change ((modifyProperties owner _ heap).2.namesOf other).get? known = some cell
    rcases namesOf_modifyProperties owner other (fun table => table.insert name new) heap with
      same | ⟨rfl, changed⟩
    · rw [same]
      exact held
    · have different : known ≠ name := by
        rintro rfl
        cases absent.symm.trans held
      rw [changed, Table.get?_insert_other _ _ _ _ different]
      exact held
  | element id position =>
    change ((modifyProperties owner _ heap).2.array id).elements[position]? = some cell
    rw [elements_modifyProperties]
    exact held

theorem keepsSlots_growArray (id : ArrayId) (size : Nat) (heap : Heap) :
    heap.KeepsSlots (growArray id size heap).2 := by
  intro slot cell held
  cases slot with
  | binding level name => cases held
  | property owner name =>
    change ((growArray id size heap).2.namesOf owner).get? name = some cell
    rw [namesOf_growArray]
    exact held
  | element other position =>
    change ((growArray id size heap).2.array other).elements[position]? = some cell
    rw [growArray_eq]
    rcases array_modifyArray id other _ _ with same | ⟨rfl, changed⟩
    · rw [same]
      exact held
    · rw [changed]
      have within := (Array.getElem?_eq_some_iff.mp held).1
      exact (Array.getElem?_append_left within).trans held

/-- A write changes no slot. -/
theorem held_setContent (target : CellId) (content : Content) (slot : Slot) :
    (setContent target content heap).2.held slot = heap.held slot := by
  cases slot with
  | binding level name => rfl
  | property owner name => exact congrArg (·.get? name) (namesOf_withCells ..)
  | element id position => rfl

theorem Assignable.takes_of_held (assignable : heap.Assignable) {slot : Slot}
    (held : heap.held slot = some cell) : heap.Takes cell := by
  cases slot with
  | binding level name => cases held
  | property owner name => exact assignable.names owner name cell held
  | element id position => exact assignable.elements id position cell held

/-! ### Reading takes no cell out of a slot -/

theorem keepsSlots_slot (owner : Content) (name : Text) (heap : Heap) :
    heap.KeepsSlots (slot owner (heap.namesOf owner) name heap).2 := by
  unfold slot
  cases found : (heap.namesOf owner).get? name with
  | some cell => exact fun _ _ held => held
  | none =>
    refine (keepsSlots_push heap {}).trans (keepsSlots_insert ?_ ⟨heap.cells.size⟩)
    rwa [namesOf_withCells]

theorem keepsSlots_prepare (id : FunctionId) (heap : Heap) :
    heap.KeepsSlots (prepare id heap).2 := by
  cases bound : (heap.function id).properties.get? prototypeName with
  | some prototype =>
    rw [prepare_of_some bound]
    exact fun _ _ held => held
  | none =>
    rw [prepare_of_none bound]
    have made := keepsSlots_push (newObject heap).2 { content := .object ⟨heap.objects.size⟩ }
    have absent : (Heap.namesOf { (newObject heap).2 with
        cells := heap.cells.push { content := .object ⟨heap.objects.size⟩ } }
          (.function id)).get? prototypeName = none := bound
    exact (keepsSlots_newObject heap).trans (made.trans (keepsSlots_insert absent _))

/-- What has no slot is read by `getProperty` as a new read-only cell. -/
theorem getProperty_of_bare (bare : owner.hasSlot name = false) (heap : Heap) :
    ∃ made : Cell, made.readOnly = true ∧ getProperty owner name heap = allocate made heap := by
  cases owner with
  | object | function => cases bare
  | null | undefined | number => exact ⟨{ content := .undefined, readOnly := true }, rfl, rfl⟩
  | text value => exact ⟨{ content := textProperty value name, readOnly := true }, rfl, rfl⟩
  | array id =>
    obtain rfl : name = "length" := by simpa [Content.hasSlot] using bare
    exact ⟨_, rfl, rfl⟩

theorem keepsSlots_getProperty (owner : Content) (name : Text) (heap : Heap) :
    heap.KeepsSlots (getProperty owner name heap).2 := by
  cases bare : owner.hasSlot name with
  | false =>
    obtain ⟨made, _, read⟩ := getProperty_of_bare bare heap
    rw [read]
    exact keepsSlots_push heap made
  | true =>
    cases owner with
    | null | undefined | number | text => exact absurd bare Bool.false_ne_true
    | object id => exact keepsSlots_slot (.object id) name heap
    | array id =>
      change heap.KeepsSlots (arrayProperty id name heap).2
      unfold arrayProperty
      cases arrayIndex? name with
      | some position => exact keepsSlots_growArray id (position + 1) heap
      | none =>
        dsimp only
        rw [if_neg (by simpa [Content.hasSlot] using bare)]
        exact keepsSlots_slot (.array id) name heap
    | function id =>
      unfold getProperty
      dsimp only
      split
      · exact (keepsSlots_prepare id heap).trans
          (keepsSlots_slot (.function id) name (prepare id heap).2)
      · exact keepsSlots_slot (.function id) name heap

/-! ### What is read is in its slot -/

theorem getD_modify_self {Value : Type} {values : Array Value} {index : Nat}
    (within : index < values.size) (change : Value → Value) (fallback : Value) :
    (values.modify index change).getD index fallback = change (values.getD index fallback) := by
  rw [Array.getD_eq_getD_getElem?, Array.getD_eq_getD_getElem?, Array.getElem?_modify, if_pos rfl,
    Array.getElem?_eq_getElem within]
  rfl

/-- A change of the table of a value that is there, by `modifyProperties`, takes place. -/
theorem namesOf_modifyProperties_self (refers : owner.isReference = true)
    (known : heap.Knows owner) (change : Table → Table) :
    (modifyProperties owner change heap).2.namesOf owner = change (heap.namesOf owner) := by
  cases owner with
  | null | undefined | number | text => cases refers
  | object id => exact getD_modify_self known change {}
  | function id => exact congrArg FunctionBody.properties (getD_modify_self known _ {})
  | array id => exact congrArg ArrayBody.properties (getD_modify_self known _ {})

theorem held_slot (refers : owner.isReference = true) (known : heap.Knows owner) (name : Text) :
    ((slot owner (heap.namesOf owner) name heap).2.namesOf owner).get? name =
      some (slot owner (heap.namesOf owner) name heap).1 := by
  unfold slot
  cases found : (heap.namesOf owner).get? name with
  | some cell => exact found
  | none =>
    have knows : Heap.Knows { heap with cells := heap.cells.push {} } owner := by
      cases owner <;> exact known
    change ((modifyProperties owner (fun table => table.insert name ⟨heap.cells.size⟩)
      { heap with cells := heap.cells.push {} }).2.namesOf owner).get? name =
        some ⟨heap.cells.size⟩
    rw [namesOf_modifyProperties_self refers knows, Table.get?_insert_self]

theorem held_arrayProperty {id : ArrayId} (known : heap.Knows (.array id))
    (other : name ≠ "length") :
    (arrayProperty id name heap).2.held ((Content.array id).slotAt name) =
      some (arrayProperty id name heap).1 := by
  unfold arrayProperty Content.slotAt
  cases index : arrayIndex? name with
  | some position =>
    have within := lt_size_growArray known position
    change ((growArray id (position + 1) heap).2.array id).elements[position]? =
      some (((growArray id (position + 1) heap).2.array id).elements.getD position default)
    rw [Array.getD_eq_getD_getElem?, Array.getElem?_eq_getElem within]
    rfl
  | none =>
    dsimp only
    rw [if_neg other]
    exact held_slot rfl known name

/-- Reading a value that `hasSlot` for a name gives the cell of the slot, `slotAt`. -/
theorem held_getProperty (closed : heap.Closed) (known : heap.Knows owner)
    (has : owner.hasSlot name = true) :
    (getProperty owner name heap).2.held (owner.slotAt name) =
      some (getProperty owner name heap).1 := by
  cases owner with
  | null | undefined | number | text => cases has
  | object id => exact held_slot rfl known name
  | array id => exact held_arrayProperty known (by simpa [Content.hasSlot] using has)
  | function id =>
    unfold getProperty
    dsimp only
    split
    · exact held_slot rfl (known.mono (keeps_prepare closed id).grows) name
    · exact held_slot rfl known name

/-! ### What is in its slot is read -/

theorem slot_of_get? (found : (heap.namesOf owner).get? name = some cell) :
    slot owner (heap.namesOf owner) name heap = (cell, heap) := by
  unfold slot
  rw [found]
  rfl

/-- An array that is long enough stays as it is. -/
theorem growArray_of_le {id : ArrayId} {size : Nat}
    (enough : size ≤ (heap.array id).elements.size) : growArray id size heap = ((), heap) := by
  have nothing : size - (heap.array id).elements.size = 0 := Nat.sub_eq_zero_of_le enough
  have none : idsFrom heap.cells.size 0 = #[] :=
    Array.eq_empty_of_size_eq_zero (by simp [idsFrom])
  have arrays : (heap.arrays.modify id.index fun body =>
      { body with elements := body.elements ++ idsFrom heap.cells.size 0 }) = heap.arrays :=
    modify_of_kept (fun body => by rw [none, Array.append_empty]) _ _
  rw [growArray_eq, nothing]
  change ((), { heap with cells := heap.cells ++ Array.replicate 0 ({} : Cell), arrays := _ }) = _
  rw [arrays, Array.replicate_zero, Array.append_empty]

/-- Reading a slot with `getProperty` that holds a cell gives this cell and changes nothing. -/
theorem getProperty_of_held (has : owner.hasSlot name = true)
    (held : heap.held (owner.slotAt name) = some cell) :
    getProperty owner name heap = (cell, heap) := by
  cases owner with
  | null | undefined | number | text => cases has
  | object id => exact slot_of_get? held
  | array id =>
    change arrayProperty id name heap = _
    unfold arrayProperty
    unfold Content.slotAt at held
    cases index : arrayIndex? name with
    | some position =>
      rw [index] at held
      have found : (heap.array id).elements[position]? = some cell := held
      have within := (Array.getElem?_eq_some_iff.mp found).1
      have whole : growArray id (position + 1) heap = ((), heap) := growArray_of_le within
      change ((growArray id (position + 1) heap).2.array id |>.elements.getD position default,
        (growArray id (position + 1) heap).2) = _
      rw [whole, Array.getD_eq_getD_getElem?, found]
      rfl
    | none =>
      rw [index] at held
      dsimp only
      rw [if_neg (by simpa [Content.hasSlot] using has)]
      exact slot_of_get? held
  | function id =>
    unfold getProperty
    dsimp only
    split
    · rename_i same
      subst same
      change (slot _ ((prepare id heap).2.function id).properties _ (prepare id heap).2) = _
      rw [prepare_of_some held]
      exact slot_of_get? held
    · exact slot_of_get? held

end Heap

namespace Machine

variable {machine : Machine} {limit : Int64} {lower : Array Operand}
  {reading storing : Instruction CellId} {source owner : Operand} {name : Text}

/-! ### Assigning -/

/-- An instruction is about to read a name of the value in a cell: the name is written in it, or is
the text of what lies on top of that cell. -/
inductive Reading (machine : Machine) (instruction : Instruction CellId) (lower : Array Operand)
    (owner : Operand) (name : Text) : Prop where
  | property (isReading : instruction.opcode = .replprop)
    (names : instruction.datum.Names name) (operands : machine.operands = lower.push owner)
  | element {key : Operand} (isReading : instruction.opcode = .index)
    (operands : machine.operands = (lower.push owner).push key)
    (names : machine.heap.text key.cell = name)

theorem Reading.execute_eq (isReading : Reading machine reading lower owner name) :
    execute reading machine = .ok .done (machine.reading lower owner.cell name) := by
  cases isReading with
  | property isReading names operands => exact execute_replprop isReading names operands
  | element isReading operands names => rw [execute_index isReading operands, names]

/-- A name of a value has been assigned to. Whoever reads it now finds the new content, in a cell
that is there, and all other slots hold the cells that they held, with what was in these. -/
structure Assigned (before : Machine) (owner : Content) (name : Text) (content : Content)
    (after : Machine) : Prop where
  read : ∀ sharer, after.heap.content sharer = owner →
    ∃ cell, Heap.getProperty (after.heap.content sharer) name after.heap = (cell, after.heap) ∧
      after.heap.content cell = content
  others : ∀ slot cell, slot ≠ owner.slotAt name → before.held slot = some cell →
    after.held slot = some cell ∧ after.heap.cell cell = before.heap.cell cell

/-- No table and no element has changed, and no cell that had been made. -/
structure Untouched (before after : Machine) : Prop where
  objects : after.heap.objects = before.heap.objects
  functions : after.heap.functions = before.heap.functions
  arrays : after.heap.arrays = before.heap.arrays
  cells : ∀ cell, before.heap.Has cell → after.heap.cell cell = before.heap.cell cell

/-! ### Storing into a slot -/

/-- A property or an element of memory is a slot of the machine. -/
theorem held_of_heap {slot : Slot} {cell : CellId} (held : machine.heap.held slot = some cell) :
    machine.held slot = some cell := by
  cases slot with
  | binding level name => cases held
  | property owner name | element id position => exact held

theorem held_of_keepsSlots {grown : Heap} {slot : Slot} {cell : CellId}
    (keeps : machine.heap.KeepsSlots grown) (held : machine.held slot = some cell) :
    Machine.held { machine with heap := grown } slot = some cell := by
  cases slot with
  | binding level name => exact held
  | property owner name => exact keeps (.property owner name) cell held
  | element id position => exact keeps (.element id position) cell held

section Memory

variable {after : Machine} {payload content : Content} {target : CellId} {grown : Heap}

/-- Storing into what was read of a value that has a slot has it `Assigned`. -/
theorem assigned_of_hasSlot (attained : Attained limit machine)
    (known : machine.heap.Knows payload) (has : payload.hasSlot name = true)
    (read : Heap.getProperty payload name machine.heap = (target, grown))
    (heap : after.heap = grown.written target content) (scopes : after.scopes = machine.scopes) :
    Assigned machine payload name content after := by
  have changes := Heap.changes_getProperty payload name machine.heap
  have keeps := Heap.keepsSlots_getProperty payload name machine.heap
  have held := Heap.held_getProperty attained.sound.memory known has
  have appends {cell : CellId} (has : machine.heap.Has cell) :=
    ((Heap.appends_getProperty payload name).cell has).2
  rw [read] at changes keeps held appends
  have separate := attained.reachable.separate.changes changes
  obtain ⟨made, writable⟩ := (attained.assignable.changes changes).takes_of_held held
  rw [Heap.written, if_pos writable] at heap
  have confined : Confined target { machine with heap := grown }
      { machine with heap := (Heap.setContent target content grown).2 } :=
    (Through.write { machine with heap := grown } content).confined
  have same (slot : Slot) :
      after.held slot = Machine.held { machine with heap := grown } slot := by
    refine (held_congr (fun _ => ?_) (fun _ => ?_) (fun _ => ?_) slot).trans (confined.held slot)
    · rw [scopes]
    · rw [heap]
    · rw [heap]
  constructor
  case read =>
    intro sharer shares
    have found : after.heap.held (payload.slotAt name) = some target := by
      rw [heap]
      exact (Heap.held_setContent ..).trans held
    rw [shares]
    refine ⟨target, Heap.getProperty_of_held has found, ?_⟩
    rw [heap]
    exact congrArg Cell.content (Heap.cell_setContent_self made content)
  case others =>
    intro slot cell other before
    have still := held_of_keepsSlots keeps before
    have different : cell ≠ target := by
      rintro rfl
      exact other (separate.single slot _ cell still (held_of_heap held))
    refine ⟨(same slot).trans still, ?_⟩
    rw [heap]
    have within := attained.reachable.separate.made slot cell before
    exact (Heap.cell_setContent_other different.symm content grown).trans (appends within)

/-- Storing into what was read of a value that has none leaves all `Untouched`. -/
theorem untouched_of_bare (bare : payload.hasSlot name = false)
    (read : Heap.getProperty payload name machine.heap = (target, grown))
    (heap : after.heap = grown.written target content) : Untouched machine after := by
  obtain ⟨made, readOnly, allocates⟩ := Heap.getProperty_of_bare bare machine.heap
  cases allocates.symm.trans read
  have new : (Heap.allocate made machine.heap).2.cell ⟨machine.heap.cells.size⟩ = made :=
    Heap.cell_allocate made machine.heap
  have refused :
      ¬ (Heap.allocate made machine.heap).2.writable ⟨machine.heap.cells.size⟩ = true := by
    unfold Heap.writable
    rw [new, readOnly]
    exact Bool.false_ne_true
  have left : after.heap = (Heap.allocate made machine.heap).2 := heap.trans (if_neg refused)
  constructor
  case cells =>
    intro cell has
    rw [left]
    exact ((Heap.appends_allocate made).cell has).2
  all_goals
    rw [left]
    rfl

end Memory

/-! ### Assigning to a property -/

/-- The cell that is to be assigned behind a `Reading` has been made. -/
theorem Reading.has_source (isReading : Reading machine reading (lower.push source) owner name)
    (sound : machine.Sound) : machine.heap.Has source.cell := by
  refine sound.operands source ?_
  cases isReading with
  | property _ _ operands =>
    rw [operands]
    simp
  | element _ operands _ =>
    rw [operands]
    simp

/-- On a machine that accepted programs lead to, `Attained`, a script does a `Reading` of a name of
a value and then stores what lies below. An object, a function or an array has the new content under
the name then, and every other slot is as it was, as `Assigned` says. The length of an array and all
names of other values stay as they are, with everything else, as `Untouched` says. -/
theorem Attained.propertyAssignment (attained : Attained limit machine)
    (isReading : Reading machine reading (lower.push source) owner name)
    (isStore : storing.opcode = .store) :
    ∃ middle after, execute reading machine = .ok .done middle ∧
      execute storing middle.stepped = .ok .done after ∧
      ((machine.heap.content owner.cell).hasSlot name = true →
        Assigned machine (machine.heap.content owner.cell) name
          (machine.heap.content source.cell) after) ∧
      ((machine.heap.content owner.cell).hasSlot name = false → Untouched machine after) := by
  let middle := machine.reading (lower.push source) owner.cell name
  let target := machine.heap.propertyOf owner.cell name
  have operands : middle.stepped.operands = (lower.push source).push { cell := target } :=
    operands_stepped middle
  have kept : middle.heap.content source.cell = machine.heap.content source.cell :=
    congrArg Cell.content ((Heap.appends_getProperty (machine.heap.content owner.cell) name).cell
      (isReading.has_source attained.sound)).2
  let after := middle.stepped.storing lower source.cell { cell := target }
  have heap : after.heap = middle.heap.written target (machine.heap.content source.cell) := by
    change middle.stepped.heap.written target (middle.stepped.heap.content source.cell) = _
    rw [heap_stepped, kept]
  refine ⟨middle, after, isReading.execute_eq, execute_store isStore operands, fun has => ?_,
    fun bare => ?_⟩
  · have known := attained.sound.memory.content owner.cell
    exact assigned_of_hasSlot attained known has rfl heap (scopes_stepped middle)
  · exact untouched_of_bare bare rfl heap

/-- A program that assigns to an element of a new array. -/
def elementProgram : Program where
  code := #[{ opcode := .push, datum := { kind := .text, text := "new" } },
    { opcode := .fetch, datum := { kind := .name, text := "Array" } }, { opcode := .pushim },
    { opcode := .call, datum := { kind := .number, number := 0 } },
    { opcode := .push, datum := { kind := .text, text := "1" } }, { opcode := .index },
    { opcode := .store }]
  stop := 7

theorem accepted_elementProgram : elementProgram.Accepted := by
  refine .inl ⟨Text.ofString "push \"new\"\nfetch Array\npushim\ncall 0\npush \"1\"\n" ++
    Text.ofString "index\nstore", ?_⟩
  decide +kernel

/-- A machine that is about to read the element. -/
def elementMachine : Machine :=
  (loop (fun _ view => view) 5 [] () ((new 0).install.load elementProgram)).2.2

theorem propertyAssignment_elementMachine :
    ∃ middle after, execute { opcode := .index } elementMachine = .ok .done middle ∧
      execute { opcode := .store } middle.stepped = .ok .done after ∧
      Assigned elementMachine (.array ⟨0⟩) "1" (.text "new") after := by
  have attained : Attained 0 elementMachine :=
    (Attained.persists 0).loop (fun _ view => view) 5 [] ()
      (Attained.new.load accepted_elementProgram)
  have operands : elementMachine.operands =
      ((#[].push { cell := ⟨11⟩ }).push { cell := ⟨13⟩ }).push { cell := ⟨14⟩ } := by
    decide +kernel
  have isReading : Reading elementMachine { opcode := .index } (#[].push { cell := ⟨11⟩ })
      { cell := ⟨13⟩ } "1" := .element rfl operands (by decide +kernel)
  have isStore : ({ opcode := .store } : Instruction CellId).opcode = .store := rfl
  have array : elementMachine.heap.content ⟨13⟩ = .array ⟨0⟩ := by decide +kernel
  have text : elementMachine.heap.content ⟨11⟩ = .text "new" := by decide +kernel
  obtain ⟨middle, after, reads, stores, assigned, _⟩ :=
    attained.propertyAssignment isReading isStore
  rw [array, text] at assigned
  exact ⟨middle, after, reads, stores, assigned (by decide)⟩

end Machine

end ScriptEngine
