/-
This file is about what a constructor call takes over from the prototype of its function. The new
receiver has the names that the prototype has at this moment, in the same order, each with a cell of
its own that holds what the prototype's holds. From then on the two are independent of each other.
They stay so as long as nobody binds a name of one of them to a cell of the other, which the engine
itself never does, but a host can: a cell that is bound is bound as it is and not copied.
-/

import Mathlib.Data.List.Forall2
import ScriptEngine.Proofs.Constructing
import ScriptEngine.Proofs.Filling
import ScriptEngine.Proofs.Independence
import ScriptEngine.Proofs.NativeCall
import ScriptEngine.Proofs.ReadOnly

namespace ScriptEngine

namespace Heap

variable {heap : Heap} {function : FunctionId} {prototype : CellId} {table : Table}

/-! ### Copying the prototype -/

/-- `copyPrototype` fills a new object with copies of what the prototype holds. -/
theorem copyPrototype_newObject (closed : heap.Closed)
    (copies : (heap.function function).constructs.copiesPrototype = true)
    (bound : (heap.function function).properties.get? prototypeName = some prototype)
    (found : heap.properties? (heap.content prototype) = some table) :
    copyPrototype function (.object ⟨heap.objects.size⟩) (allocateObject heap).2 =
      ((), heap.withCopies table.entries) := by
  have has : heap.Has prototype := (closed.function function).get? bound
  have known := closed.content prototype
  have same : (allocateObject heap).2.content prototype = heap.content prototype :=
    congrArg Cell.content (cell_of_has has Array.append_singleton.symm)
  have still : (allocateObject heap).2.properties? (heap.content prototype) = some table := by
    rw [← found]
    cases holds : heap.content prototype with
    | object id =>
      rw [holds] at known
      exact congrArg some (object_of_knows known rfl)
    | null | undefined | number | text | array | function => rfl
  rw [← setCopies_newObject (closed.properties? found)]
  unfold copyPrototype
  dsimp only [bind, StateT.bind, get, getThe, MonadStateOf.get, StateT.get, pure]
  rw [if_pos (show ((allocateObject heap).2.function function).constructs.copiesPrototype = true
    from copies), show ((allocateObject heap).2.function function).properties.get? prototypeName =
    some prototype from bound]
  dsimp only
  rw [same, still]

theorem copyPrototype_of_kind
    (bare : (heap.function function).constructs.copiesPrototype = false) (target : Content) :
    copyPrototype function target (allocateObject heap).2 = ((), (allocateObject heap).2) := by
  unfold copyPrototype
  change (if (heap.function function).constructs.copiesPrototype then _ else _ :
    StateM Heap Unit) (allocateObject heap).2 = _
  rw [if_neg (by rw [bare]; exact Bool.false_ne_true)]
  rfl

/-! ### The new receiver -/

/-- An object has the names of a value in their order, each with a new writable cell of its own that
holds what the value's cell holds. The value is as it was, and the two are `Independent`. -/
structure Snapshot (before : Heap) (value : Content) (table : Table) (id : ObjectId)
    (after : Heap) : Prop where
  copies : List.Forall₂ (fun copy original => copy.1 = original.1 ∧ ¬ before.Has copy.2 ∧
      after.cell copy.2 = { content := before.content original.2 })
    (after.object id).entries table.entries
  single : ∀ name other cell, (after.object id).get? name = some cell →
    (after.object id).get? other = some cell → name = other
  original : after.namesOf value = table ∧ after.listing value = before.listing value
  independent : after.Independent value (.object id)

/-- An object is what a constructor call of a function starts with. If the kind of the function
`copiesPrototype`, it is a `Snapshot` of the prototype, otherwise it has no properties. -/
structure Starts (function : FunctionId) (before : Heap) (id : ObjectId) (after : Heap) :
    Prop where
  snapshot : (before.function function).constructs.copiesPrototype = true →
    ∀ prototype table, (before.function function).properties.get? prototypeName = some prototype →
      before.properties? (before.content prototype) = some table → table.keys.Nodup →
      Snapshot before (before.content prototype) table id after
  bare : (before.function function).constructs.copiesPrototype = false → after.object id = {}

theorem isNamed_of_properties? {value : Content} (found : heap.properties? value = some table) :
    value.isNamed = true ∧ heap.namesOf value = table := by
  cases value with
  | object | function =>
    cases found
    exact ⟨rfl, rfl⟩
  | null | undefined | number | text | array => cases found

/-- The memory once more cells have been made behind the copies. -/
def withCopiesAnd (heap : Heap) (table : Table) (more : Array Cell) : Heap :=
  { heap.withCopies table.entries with cells := (heap.withCopies table.entries).cells ++ more }

section WithCopiesAnd

variable {value : Content} {more : Array Cell}

theorem has_withCopiesAnd {cell : CellId}
    (within : cell.index < heap.cells.size + 1 + table.entries.length) :
    (heap.withCopies table.entries).Has cell := by
  unfold Heap.Has withCopies copiesOf
  simp only [Array.size_append, List.size_toArray, List.length_cons, List.length_map]
  omega

theorem namesOf_withCopiesAnd (known : heap.Knows value) :
    (heap.withCopiesAnd table more).namesOf value = heap.namesOf value := by
  cases value with
  | object id => exact object_of_knows known rfl
  | null | undefined | number | text | array | function => rfl

theorem object_withCopiesAnd :
    (heap.withCopiesAnd table more).object ⟨heap.objects.size⟩ =
      Table.empty.bindAll (heap.cells.size + 1) table.keys :=
  object_withCopies

theorem cell_withCopiesAnd {cell : CellId} (has : (heap.withCopies table.entries).Has cell) :
    (heap.withCopiesAnd table more).cell cell = (heap.withCopies table.entries).cell cell :=
  cell_of_has has rfl

/-- The value and its copy are `Apart`, without a cell in common: those of the one were there, those
of the other were not. -/
theorem apart_withCopiesAnd (closed : heap.Closed) (known : heap.Knows value)
    (found : heap.properties? value = some table) :
    (heap.withCopiesAnd table more).Apart value (.object ⟨heap.objects.size⟩) := by
  have hasAll := closed.properties? found
  have names : (heap.withCopiesAnd table more).namesOf value = table :=
    (namesOf_withCopiesAnd known).trans (isNamed_of_properties? found).2
  have larger : heap.cells.size ≤ (heap.withCopiesAnd table more).cells.size := by
    unfold withCopiesAnd withCopies
    simp only [Array.size_append]
    omega
  have row (entry : Text × CellId)
      (member : entry ∈ ((heap.withCopiesAnd table more).object ⟨heap.objects.size⟩).entries) :
      heap.cells.size < entry.2.index ∧ (heap.withCopiesAnd table more).Has entry.2 := by
    rw [object_withCopiesAnd] at member
    obtain ⟨place, within, bound⟩ := Table.mem_bindAll member
    rw [Table.keys, List.length_map] at within
    rw [bound]
    refine ⟨by dsimp only; omega, ?_⟩
    have has : (heap.withCopies table.entries).Has ⟨heap.cells.size + 1 + place⟩ :=
      has_withCopiesAnd (by dsimp only; omega)
    unfold Heap.Has at has ⊢
    exact Nat.lt_of_lt_of_le has (by unfold withCopiesAnd; simp)
  refine ⟨?_, fun entry member => ?_, fun entry member => (row entry member).2, ?_⟩
  · rintro rfl
    exact Nat.lt_irrefl _ known
  · rw [names] at member
    exact Nat.lt_of_lt_of_le (hasAll entry member) larger
  · rintro cell ⟨entry, member, rfl⟩ ⟨copy, member', same⟩
    rw [names] at member
    have old : entry.2.index < heap.cells.size := hasAll entry member
    have new := (row copy member').1
    rw [same] at new
    omega

theorem snapshot_withCopiesAnd (closed : heap.Closed) (known : heap.Knows value)
    (found : heap.properties? value = some table) (distinct : table.keys.Nodup) :
    Snapshot heap value table ⟨heap.objects.size⟩ (heap.withCopiesAnd table more) := by
  obtain ⟨named, names⟩ := isNamed_of_properties? found
  have hasAll := closed.properties? found
  have apart : (heap.withCopiesAnd table more).Apart value (.object ⟨heap.objects.size⟩) :=
    apart_withCopiesAnd closed known found
  refine ⟨?_, ?_, ⟨(namesOf_withCopiesAnd known).trans names, ?_⟩, apart.independent named rfl⟩
  · rw [object_withCopiesAnd, Table.entries_bindAll distinct, List.forall₂_iff_get]
    refine ⟨by simp [Table.keys], fun position inside inside' => ?_⟩
    have present : table.entries[position]? = some table.entries[position] :=
      List.getElem?_eq_getElem inside'
    simp only [List.get_eq_getElem, List.getElem_mapIdx, Table.keys, List.getElem_map, true_and]
    refine ⟨?_, (cell_withCopiesAnd ?_).trans (cell_withCopies_copy present)⟩
    · unfold Heap.Has
      dsimp only
      omega
    · exact has_withCopiesAnd (by dsimp only; omega)
  · intro name other cell bound bound'
    rw [object_withCopiesAnd] at bound bound'
    exact Table.eq_of_get?_bindAll bound bound'
  · unfold listing
    rw [namesOf_withCopiesAnd known, names]
    refine List.map_congr_left fun entry member => ?_
    have has := hasAll entry member
    have cells : (heap.withCopiesAnd table more).cells =
        heap.cells ++ (({ content := .object ⟨heap.objects.size⟩ } ::
          heap.copiesOf table.entries).toArray ++ more) := Array.append_assoc
    rw [show (heap.withCopiesAnd table more).content entry.2 = heap.content entry.2 from
      congrArg Cell.content (cell_of_has has cells)]

end WithCopiesAnd

/-! ### Making cells -/

/-- Cells have been made, and nothing else in memory has changed. -/
def MakesCells (before after : Heap) : Prop :=
  ∃ more, after = { before with cells := before.cells ++ more }

theorem MakesCells.refl (heap : Heap) : heap.MakesCells heap :=
  ⟨#[], by rw [Array.append_empty]⟩

theorem MakesCells.push (heap : Heap) (cell : Cell) :
    heap.MakesCells { heap with cells := heap.cells.push cell } :=
  ⟨#[cell], by rw [Array.append_singleton]⟩

theorem MakesCells.trans {before middle after : Heap} (first : before.MakesCells middle)
    (second : middle.MakesCells after) : before.MakesCells after := by
  obtain ⟨more, rfl⟩ := first
  obtain ⟨others, rfl⟩ := second
  exact ⟨more ++ others, by rw [Array.append_assoc]⟩

end Heap

namespace Machine

variable {machine final : Machine} {function : FunctionId} {arguments : List CellId}

/-! ### Entering a function -/

/-- `bindParameters` makes cells, and changes nothing else in memory. -/
theorem heap_bindParameters {names : List Text}
    (ends : bindParameters names arguments machine = .ok () final) :
    machine.heap.MakesCells final.heap := by
  induction names generalizing arguments machine with
  | nil =>
    cases ends
    exact .refl _
  | cons name names inductionHypothesis =>
    unfold bindParameters at ends
    cases arguments with
    | nil | cons =>
      obtain ⟨cell, allocated, allocating, ends⟩ := bind_eq_ok.mp ends
      cases allocating
      obtain ⟨_, later, binding, ends⟩ := bind_eq_ok.mp ends
      cases onScopes_eq_ok binding
      exact (Heap.MakesCells.push machine.heap _).trans (inductionHypothesis ends)

theorem heap_enter (ends : enter function arguments false machine = .ok () final) :
    machine.heap.MakesCells final.heap := by
  obtain ⟨_, opened, pushed, ends⟩ := bind_eq_ok.mp ends
  obtain ⟨_, bound, binding, ends⟩ := bind_eq_ok.mp ((get_bind _ _).symm.trans ends)
  cases onScopes_eq_ok pushed
  have made := heap_bindParameters binding
  cases ends
  exact made

/-- Entering a function for a constructor call fills the new receiver first, by `copyPrototype`. -/
theorem enter_constructing {heap : Heap}
    (copied : Heap.copyPrototype function (.object ⟨machine.heap.objects.size⟩)
      (Heap.allocateObject machine.heap).2 = ((), heap))
    (ends : enter function arguments true machine = .ok () final) :
    final.receivers = machine.receivers.push ⟨machine.heap.cells.size⟩ ∧
      heap.MakesCells final.heap := by
  have object : (Heap.allocateObject machine.heap).2.content ⟨machine.heap.cells.size⟩ =
      .object ⟨machine.heap.objects.size⟩ :=
    (Heap.content_allocateObject machine.heap).2
  have pushed : pushNewReceiver function machine = .ok ()
      { machine with heap, receivers := machine.receivers.push ⟨machine.heap.cells.size⟩ } := by
    change EStateM.Result.ok () { machine with
      heap := (Heap.copyPrototype function ((Heap.allocateObject machine.heap).2.content
        ⟨machine.heap.cells.size⟩) (Heap.allocateObject machine.heap).2).2
      receivers := machine.receivers.push ⟨machine.heap.cells.size⟩ } = _
    rw [object, copied]
  have rest : enter function arguments false _ = .ok () final :=
    (bind_of_ok pushed).symm.trans ends
  obtain ⟨heap, scopes, current, rfl⟩ := enter_false_left rest
  exact ⟨rfl, heap_enter rest⟩

theorem starts_of_enter (closed : machine.heap.Closed)
    (ends : enter function arguments true machine = .ok () final) :
    Heap.Starts function machine.heap ⟨machine.heap.objects.size⟩ final.heap := by
  constructor
  case snapshot =>
    intro copies prototype table bound found distinct
    have copied := Heap.copyPrototype_newObject closed copies bound found
    obtain ⟨_, more, made⟩ := enter_constructing copied ends
    rw [made]
    exact Heap.snapshot_withCopiesAnd closed (closed.content prototype) found distinct
  case bare =>
    intro bare
    have copied := Heap.copyPrototype_of_kind bare (.object ⟨machine.heap.objects.size⟩)
    obtain ⟨_, more, made⟩ := enter_constructing copied ends
    rw [made]
    exact Heap.object_of_made rfl

/-! ### Native constructors -/

/-- The native functions for arrays, numbers and truth values. -/
def makesBare : Native → Bool
  | .array | .number | .boolean => true
  | .print | .assertEqual | .invoke | .object | .echo => false

/-- The result of an action has no properties. -/
def GivesBare (action : Action CellId) : Prop :=
  ∀ ⦃machine : Machine⦄ ⦃result : CellId⦄ ⦃final : Machine⦄, action machine = .ok result final →
    final.heap.namesOf (final.heap.content result) = {}

theorem givesBare_get {next : Machine → Action CellId}
    (second : ∀ machine, GivesBare (next machine)) : GivesBare (get >>= next) :=
  fun machine _ _ ends => second machine ((get_bind _ _).symm.trans ends)

theorem givesBare_allocateContent {content : Content}
    (bare : ∀ heap : Heap, heap.namesOf content = {}) :
    GivesBare (onHeap (Heap.allocateContent content)) := by
  rintro machine _ _ ⟨⟩
  have holds := congrArg Cell.content (Heap.cell_allocate { content } machine.heap)
  exact (congrArg _ holds).trans (bare _)

/-- A new array `GivesBare`: it has no properties, however its elements have been made. -/
theorem givesBare_newArray (elements : StateM Heap (Array CellId)) :
    GivesBare (onHeap do Heap.allocateContent (.array (← Heap.newArray (← elements)))) := by
  rintro machine _ _ ⟨⟩
  have holds := congrArg Cell.content (Heap.cell_allocate
    { content := .array ⟨(elements machine.heap).2.arrays.size⟩ }
    (Heap.newArray (elements machine.heap).1 (elements machine.heap).2).2)
  change Heap.namesOf _ (Heap.content _ _) = _
  refine (congrArg _ holds).trans ?_
  change (((elements machine.heap).2.arrays.push _).getD _ {}).properties = _
  rw [Array.getD_eq_getD_getElem?, Array.getElem?_push_size]
  rfl

theorem givesBare_callArray (arguments : List CellId) : GivesBare (callArray arguments) := by
  unfold callArray
  refine givesBare_get fun machine => ?_
  dsimp only
  split
  · split
    · split
      · exact givesBare_newArray _
      · rintro _ _ _ ⟨⟩
    · exact givesBare_newArray _
  · exact givesBare_newArray _

theorem givesBare_callPlain {native : Native} (makes : makesBare native = true)
    (arguments : List CellId) : GivesBare (callPlain native arguments) := by
  cases native with
  | print | assertEqual | invoke | object | echo => cases makes
  | array => exact givesBare_callArray arguments
  | number | boolean => exact givesBare_get fun _ => givesBare_allocateContent fun _ => rfl

theorem callHost_eq_ok {native : Native} {receiver? : Option CellId} {call : HostCall}
    (makes : makesBare native = true)
    (ends : callHost native receiver? arguments machine = .ok call final) :
    ∃ result, call = .value result ∧ callPlain native arguments machine = .ok result final := by
  have same : callHost native receiver? arguments =
      callPlain native arguments >>= fun result => pure (.value result) := by
    cases arguments with
    | nil => rfl
    | cons =>
      cases native with
      | array | number | boolean => rfl
      | print | assertEqual | invoke | object | echo => cases makes
  rw [same] at ends
  obtain ⟨result, middle, called, ends⟩ := bind_eq_ok.mp ends
  cases ends
  exact ⟨result, rfl, called⟩

end Machine

open Machine

namespace Configuration

variable {before after : Configuration} {count : Nat} {function : FunctionId}

/-! ### Constructor calls -/

/-- A constructor call has pushed a new receiver that holds a new object. -/
structure Receives (before after : Machine) (receiver : CellId) (id : ObjectId) : Prop where
  receivers : after.receivers = before.receivers.push receiver
  fresh : ¬ before.heap.Has receiver ∧ ¬ before.heap.Knows (.object id)
  holds : after.heap.content receiver = .object id

/-- The move of a constructor call of a script function gives its body a new object, which it
`Receives`. What the object `Heap.Starts` with is, where the kind of the function asks for it, a
snapshot of what the prototype is at this moment, which the call makes with `Heap.prepare` if there
is none; for the other kinds it is bare. So is what the native functions of these kinds make,
`makesBare`. -/
theorem Moves.prototypeSnapshot (moves : before.Moves after) (executes : before.Executes)
    (calls : before.machine.Calls count function)
    (marked : before.machine.flags.construct = true) (closed : before.machine.heap.Closed) :
    ((before.machine.heap.function function).native = none →
      ∃ receiver id, Receives before.machine after.machine receiver id ∧
        Heap.Starts function (Heap.prepare function before.machine.heap).2 id
          after.machine.heap) ∧
      ∀ native, (before.machine.heap.function function).native = some native →
        makesBare native = true →
        ∃ receiver, after.machine.receivers = before.machine.receivers.push receiver ∧
          after.machine.heap.namesOf (after.machine.heap.content receiver) = {} := by
  refine ⟨fun script => ?_, fun native kind makes => ?_⟩
  · obtain ⟨middle, entering, rfl⟩ := moves.exists_enter executes calls script
    rw [marked] at entering
    obtain ⟨_, receivers, holds⟩ := enter_left entering
    obtain ⟨cells, objects⟩ := Heap.size_le_prepare function before.machine.heap
    have closed : (before.machine.ready count function).heap.Closed :=
      (Heap.keeps_prepare closed function).closed
    refine ⟨_, _, ⟨?_, ⟨Nat.not_lt_of_le cells, Nat.not_lt_of_le objects⟩, ?_⟩, ?_⟩
    · rw [receivers_stepped]
      exact receivers
    · rw [heap_stepped]
      exact holds rfl
    · rw [heap_stepped]
      exact starts_of_enter closed entering
  · rcases moves.step.of_native executes calls kind with ⟨this, result, middle, hosted, rfl⟩ |
      ⟨_, _, _, _, _, _, hosted, _, _⟩
    · obtain ⟨_, ⟨⟩, called⟩ := callHost_eq_ok makes hosted
      obtain ⟨_, _, receivers, _⟩ := callHost_ready hosted
      refine ⟨result, ?_, ?_⟩
      · have whole : before.machine.receivers.shrink before.machine.receivers.size =
            before.machine.receivers := by
          apply Array.toList_inj.mp
          rw [Array.toList_shrink, ← Array.length_toList, List.take_length]
        rw [receivers_stepped]
        unfold nativeReturn
        dsimp only
        rw [if_pos marked, receivers]
        exact congrArg (Array.push · result) whole
      · have bare := givesBare_callPlain makes _ called
        rw [heap_stepped]
        exact bare
    · obtain ⟨_, impossible, _⟩ := callHost_eq_ok makes hosted
      cases impossible

/-- A memory with a function whose prototype has one property, with a read-only mark. -/
def propertyMemory : Heap where
  cells := #[{ content := .function ⟨0⟩ }, { content := .object ⟨0⟩ },
    { content := .text "a", readOnly := true }, {}]
  objects := #[⟨[("x", ⟨2⟩)]⟩]
  functions := #[{ entry := 1, properties := ⟨[(Heap.prototypeName, ⟨1⟩)]⟩ }]

theorem closed_propertyMemory : propertyMemory.Closed := by
  constructor <;> simp [propertyMemory, Heap.Knows, Heap.Has, Heap.HasAll]

/-- A machine about to make a constructor call of this function. -/
def propertyCall : Configuration where
  machine :=
    { heap := propertyMemory
      scopes := { receiver := ⟨3⟩ }
      code := #[{ opcode := .call, datum := { kind := .number, number := 1 } },
        { opcode := .push, datum := { kind := .null } }, { opcode := .ret }]
      stop := 3
      flags := { construct := true }
      operands := #[{ cell := ⟨0⟩ }, { cell := ⟨3⟩ }] }
  pending := []

theorem calls_propertyCall : propertyCall.machine.Calls 1 ⟨0⟩ :=
  ⟨⟨_, rfl, rfl, rfl, rfl⟩, by decide, ⟨0⟩, rfl, rfl⟩

theorem prototypeSnapshot_propertyCall :
    ∃ receiver id, Receives propertyCall.machine (propertyCall.after 1).machine receiver id ∧
      Heap.Snapshot propertyMemory (.object ⟨0⟩) ⟨[("x", ⟨2⟩)]⟩ id
        (propertyCall.after 1).machine.heap := by
  have moves : propertyCall.Moves (propertyCall.after 1) := moves_of_next? (by decide +kernel)
  obtain ⟨receiver, id, receives, starts⟩ :=
    (moves.prototypeSnapshot rfl calls_propertyCall rfl closed_propertyMemory).1 rfl
  exact ⟨receiver, id, receives, starts.snapshot rfl ⟨1⟩ _ rfl rfl (by simp [Table.keys])⟩

/-- Who binds, by an `Operation`, another name of the prototype to the cell that the receiver has,
and then writes through this name, changes the receiver. -/
theorem exists_operations_ne_listing :
    propertyCall.Moves (propertyCall.after 1) ∧
      ∃ receiver id, Receives propertyCall.machine (propertyCall.after 1).machine receiver id ∧
      ∃ cell, ((([.bind "y" cell, .write "y" (.text "b")] : List Heap.Operation).forM
          (Heap.Operation.perform (.object ⟨0⟩))) (propertyCall.after 1).machine.heap).2.listing
            (.object id) ≠
        (propertyCall.after 1).machine.heap.listing (.object id) := by
  refine ⟨moves_of_next? (by decide +kernel), ⟨4⟩, ⟨1⟩, ⟨by decide +kernel, ?_, by decide +kernel⟩,
    ⟨5⟩, ?_⟩
  · exact ⟨Nat.lt_irrefl _, Nat.lt_irrefl _⟩
  · decide +kernel

end Configuration

end ScriptEngine
