/-
This file follows one cell through the moves of a machine. Memory grows at its end, and nothing but
the five instructions that write through the topmost operand replaces what a cell holds. So a move
spares every cell, with one exception: the cell that is topmost when such an instruction is executed
and that takes another value.
-/

import ScriptEngine.Proofs.Calls
import ScriptEngine.Proofs.Closed
import ScriptEngine.Proofs.Moves

namespace ScriptEngine

open Relation

/-! ### Memory grows at its end -/

namespace Heap

/-- An operation on memory makes cells behind the others and changes none. -/
def Appends {Result : Type} (operation : StateM Heap Result) : Prop :=
  ∀ heap : Heap, heap.cells.toList <+: (operation heap).2.cells.toList

section Operations

variable {Result Next : Type}

theorem appends_of_same {operation : StateM Heap Result}
    (same : ∀ heap, (operation heap).2.cells = heap.cells) : Appends operation := by
  intro heap
  refine ⟨[], ?_⟩
  rw [List.append_nil, same]

/-- Where cells are only made behind the others, each is still there, and as it was. -/
theorem cell_of_isPrefix {before after : Heap} (grown : before.cells.toList <+: after.cells.toList)
    {cell : CellId} (has : before.Has cell) :
    after.Has cell ∧ after.cell cell = before.cell cell := by
  have length := grown.length_le
  rw [Array.length_toList, Array.length_toList] at length
  refine ⟨Nat.lt_of_lt_of_le has length, ?_⟩
  change after.cells.getD cell.index {} = before.cells.getD cell.index {}
  obtain ⟨more, equal⟩ := grown
  rw [Array.getD_eq_getD_getElem?, Array.getD_eq_getD_getElem?, ← Array.getElem?_toList,
    ← Array.getElem?_toList, ← equal, List.getElem?_append_left (by rwa [Array.length_toList])]

theorem Appends.cell {operation : StateM Heap Result} (appends : Appends operation) {heap : Heap}
    {cell : CellId} (has : heap.Has cell) :
    (operation heap).2.Has cell ∧ (operation heap).2.cell cell = heap.cell cell :=
  cell_of_isPrefix (appends heap) has

theorem appends_pure (result : Result) : Appends (pure result) :=
  fun _ => List.prefix_rfl

theorem appends_bind {operation : StateM Heap Result} {next : Result → StateM Heap Next}
    (first : Appends operation) (second : ∀ result, Appends (next result)) :
    Appends (operation >>= next) :=
  fun heap => (first heap).trans (second _ _)

theorem appends_get {next : Heap → StateM Heap Next} (second : ∀ heap, Appends (next heap)) :
    Appends (get >>= next) :=
  fun heap => second heap heap

theorem appends_allocate (cell : Cell) : Appends (allocate cell) := by
  intro heap
  change heap.cells.toList <+: (heap.cells.push cell).toList
  rw [Array.toList_push]
  exact List.prefix_append _ _

theorem appends_allocateContent (content : Content) : Appends (allocateContent content) :=
  appends_allocate { content }

theorem appends_copy (id : CellId) : Appends (copy id) :=
  appends_get fun _ => appends_allocateContent _

theorem appends_allocateMany (count : Nat) : Appends (allocateMany count) := by
  intro heap
  change heap.cells.toList <+: (heap.cells ++ Array.replicate count ({} : Cell)).toList
  rw [Array.toList_append]
  exact List.prefix_append _ _

theorem appends_modifyProperties (owner : Content) (change : Table → Table) :
    Appends (modifyProperties owner change) := by
  refine appends_of_same fun heap => ?_
  cases owner <;> rfl

theorem appends_allocateObject : Appends allocateObject :=
  appends_bind (appends_of_same fun _ => rfl) fun _ => appends_allocateContent _

theorem appends_allocateArray (size : Nat) : Appends (allocateArray size) :=
  appends_bind (appends_allocateMany size) fun _ =>
    appends_bind (appends_of_same fun _ => rfl) fun _ => appends_allocateContent _

/-! ### Properties -/

theorem appends_slot (owner : Content) (table : Table) (name : Text) :
    Appends (slot owner table name) := by
  unfold slot
  split
  · exact appends_pure _
  · exact appends_bind (appends_allocateContent _) fun _ =>
      appends_bind (appends_modifyProperties owner _) fun _ => appends_pure _

theorem appends_growArray (id : ArrayId) (size : Nat) : Appends (growArray id size) :=
  appends_get fun _ => appends_bind (appends_allocateMany _) fun _ => appends_of_same fun _ => rfl

theorem appends_assignElement (id : ArrayId) (position : Nat) (cell : CellId) :
    Appends (assignElement id position cell) :=
  appends_bind (appends_growArray id _) fun _ => appends_of_same fun _ => rfl

theorem appends_arrayProperty (id : ArrayId) (name : Text) : Appends (arrayProperty id name) := by
  unfold arrayProperty
  split
  · exact appends_bind (appends_growArray id _) fun _ => appends_get fun _ => appends_pure _
  · split
    · exact appends_get fun _ => appends_allocate _
    · exact appends_get fun _ => appends_slot _ _ _

theorem appends_prepare (id : FunctionId) : Appends (prepare id) := by
  refine appends_get fun _ => ?_
  split
  · exact appends_pure ()
  · exact appends_bind appends_allocateObject fun _ => appends_of_same fun _ => rfl

theorem appends_getProperty (content : Content) (name : Text) :
    Appends (getProperty content name) := by
  cases content with
  | object id => exact appends_get fun _ => appends_slot _ _ _
  | array id => exact appends_arrayProperty id name
  | function id =>
    have found : Appends (do slot (.function id) ((← get).function id).properties name) :=
      appends_get fun _ => appends_slot _ _ _
    unfold getProperty
    dsimp only
    split
    · exact appends_bind (appends_prepare id) fun _ => found
    · exact found
  | text | null | undefined | number => exact appends_allocate _

theorem appends_setProperty (content : Content) (name : Text) (cell : CellId) :
    Appends (setProperty content name cell) := by
  cases content with
  | object id | function id =>
    exact appends_bind (appends_modifyProperties _ _) fun _ => appends_pure true
  | array id =>
    unfold setProperty
    dsimp only
    split
    · exact appends_bind (appends_assignElement id _ cell) fun _ => appends_pure true
    · exact appends_bind (appends_modifyProperties _ _) fun _ => appends_pure true
  | null | undefined | number | text => exact appends_pure false

theorem appends_setCopies (target : Content) (entries : List (Text × CellId)) :
    Appends (setCopies target entries) := by
  induction entries with
  | nil => exact appends_pure ()
  | cons entry rest inductionHypothesis =>
    exact appends_bind (appends_copy entry.2) fun fresh =>
      appends_bind (appends_setProperty target entry.1 fresh) fun _ => inductionHypothesis

theorem appends_copyPrototype (constructor : FunctionId) (target : Content) :
    Appends (copyPrototype constructor target) := by
  refine appends_get fun heap => ?_
  dsimp only
  split
  · split
    · split
      · exact appends_setCopies target _
      · exact appends_pure ()
    · exact appends_pure ()
  · exact appends_pure ()

theorem appends_arrayOfCopies (ids : List CellId) : Appends (arrayOfCopies ids) := by
  refine appends_bind ?_ fun _ => appends_bind (appends_of_same fun _ => rfl) fun _ =>
    appends_allocateContent _
  intro heap
  obtain ⟨cells, _, copied⟩ := toArray_mapM_copy ids heap
  rw [copied, Array.toList_append]
  exact List.prefix_append _ _

theorem appends_firstOrUndefined (ids : List CellId) : Appends (firstOrUndefined ids) := by
  cases ids with
  | nil => exact appends_allocateContent _
  | cons id _ => exact appends_pure id

theorem appends_setOperands (target : Content) (operands : List Operand) :
    Appends (Machine.setOperands target operands) := by
  induction operands with
  | nil => exact appends_pure ()
  | cons operand rest inductionHypothesis =>
    exact appends_bind (appends_copy operand.cell) fun fresh =>
      appends_bind (appends_setProperty target operand.key fresh) fun _ => inductionHypothesis

end Operations

end Heap

namespace Machine

variable {Result : Type} {cell : CellId} {machine : Machine}

/-! ### One cell -/

/-- If a cell has been made it is there afterwards and has not changed. -/
def Sparing (cell : CellId) (before after : Machine) : Prop :=
  before.heap.Has cell → after.heap.Has cell ∧ after.heap.cell cell = before.heap.cell cell

/-- What leaves memory alone is `Sparing` every cell. -/
theorem Sparing.of_same {before after : Machine} (same : after.heap = before.heap) :
    Sparing cell before after := by
  intro has
  rw [same]
  exact ⟨has, rfl⟩

theorem Sparing.trans {before middle after : Machine} (first : Sparing cell before middle)
    (second : Sparing cell middle after) : Sparing cell before after := by
  intro has
  obtain ⟨middleHas, middleSame⟩ := first has
  obtain ⟨finalHas, finalSame⟩ := second middleHas
  exact ⟨finalHas, finalSame.trans middleSame⟩

theorem Leads.sparing {action : Action Result} (leads : Leads (Sparing cell) action machine) :
    Sparing cell machine (leftBy action machine) := by
  unfold Leads at leads
  generalize leftBy action machine = final at leads ⊢
  induction leads with
  | refl => exact .of_same rfl
  | tail _ spares inductionHypothesis => exact inductionHypothesis.trans spares

theorem sparing_modify (change : Machine → Machine)
    (same : (change machine).heap = machine.heap) :
    Leads (Sparing cell) (modify change) machine :=
  .modify change (.of_same same)

theorem sparing_onHeap {operation : StateM Heap Result} (appends : Heap.Appends operation) :
    Leads (Sparing cell) (onHeap operation) machine := by
  exact .single fun has => appends.cell has

/-! ### Stacks, frames and scopes -/

theorem sparing_top (machine : Machine) : Leads (Sparing cell) top machine := by
  refine .get ?_
  split
  · exact .pure _
  · exact .get (.throw _)

theorem sparing_pop (machine : Machine) : Leads (Sparing cell) pop machine :=
  .bind (sparing_top machine) fun operand _ _ =>
    .bind (sparing_modify _ rfl) fun _ _ _ => .pure operand

theorem sparing_popOnto (count : Nat) (cells : List CellId) (machine : Machine) :
    Leads (Sparing cell) (popOnto count cells) machine := by
  induction count generalizing cells machine with
  | zero => exact .pure cells
  | succ count inductionHypothesis =>
    exact .bind (sparing_pop machine) fun operand middle _ => inductionHypothesis _ middle

theorem sparing_setFlags (machine : Machine) : Leads (Sparing cell) setFlags machine :=
  .bind (sparing_top machine) fun _ _ _ => .bind (.get (.pure _)) fun _ _ _ => sparing_modify _ rfl

theorem sparing_pushCell (pushed : CellId) (machine : Machine) :
    Leads (Sparing cell) (pushCell pushed) machine :=
  sparing_modify _ rfl

/-- Pushing a cell and setting the flags by it, the end of most instructions. -/
theorem sparing_pushResult (pushed : CellId) (machine : Machine) :
    Leads (Sparing cell) (do pushCell pushed; setFlags) machine :=
  .bind (sparing_pushCell pushed machine) fun _ last _ => sparing_setFlags last

theorem sparing_pushContent (content : Content) (machine : Machine) :
    Leads (Sparing cell) (do pushContent content; setFlags) machine :=
  .bind (.bind (sparing_onHeap (Heap.appends_allocateContent content)) fun made middle _ =>
    sparing_pushCell made middle) fun _ last _ => sparing_setFlags last

theorem sparing_receiver (machine : Machine) : Leads (Sparing cell) receiver machine := by
  refine .get ?_
  split
  · exact .pure _
  · split
    · exact .pure _
    · exact .throw _

theorem sparing_onScopes (change : Scopes → Scopes) (machine : Machine) :
    Leads (Sparing cell) (onScopes change) machine := by
  refine .get ?_
  split
  · exact sparing_modify _ rfl
  · exact .throw _

theorem sparing_popFrame (machine : Machine) : Leads (Sparing cell) popFrame machine := by
  refine .get ?_
  split
  · exact .bind (sparing_modify _ rfl) fun _ _ _ => .pure _
  · exact .get (.throw _)

theorem sparing_leaveFrame (machine : Machine) : Leads (Sparing cell) leaveFrame machine :=
  .bind (sparing_popFrame machine) fun frame _ _ => .bind (sparing_modify _ rfl) fun _ _ _ =>
    .bind (sparing_modify _ rfl) fun _ _ _ => .pure frame

theorem sparing_restore (machine : Machine) : Leads (Sparing cell) restore machine :=
  .bind (sparing_popFrame machine) fun frame _ _ => .bind (sparing_modify _ rfl) fun _ _ _ =>
    .bind (sparing_modify _ rfl) fun _ _ _ => .pure frame

/-! ### Native functions -/

theorem sparing_callArray (arguments : List CellId) (machine : Machine) :
    Leads (Sparing cell) (callArray arguments) machine := by
  have copies : Leads (Sparing cell) (onHeap (Heap.arrayOfCopies arguments)) machine :=
    sparing_onHeap (Heap.appends_arrayOfCopies arguments)
  unfold callArray
  refine .get ?_
  dsimp only
  split
  · split
    · split
      · exact sparing_onHeap (Heap.appends_allocateArray _)
      · exact .throw _
    · exact copies
  · exact copies

theorem sparing_callAssertEqual (arguments : List CellId) (machine : Machine) :
    Leads (Sparing cell) (callAssertEqual arguments) machine := by
  unfold callAssertEqual
  refine .get ?_
  dsimp only
  split
  · split
    · exact sparing_onHeap (Heap.appends_allocateContent _)
    · exact .throw _
  · exact .throw _

theorem sparing_callPlain (native : Native) (arguments : List CellId) (machine : Machine) :
    Leads (Sparing cell) (callPlain native arguments) machine := by
  unfold callPlain
  cases native with
  | print =>
    exact .get (.bind (sparing_modify _ rfl) fun _ _ _ =>
      sparing_onHeap (Heap.appends_allocateContent _))
  | assertEqual => exact sparing_callAssertEqual arguments machine
  | array => exact sparing_callArray arguments machine
  | number | boolean => exact .get (sparing_onHeap (Heap.appends_allocateContent _))
  | object => exact sparing_onHeap Heap.appends_allocateObject
  | echo => exact sparing_onHeap (Heap.appends_firstOrUndefined _)
  | invoke => exact .throw _

theorem sparing_prepared (callee : CellId) (machine : Machine) :
    Leads (Sparing cell) (prepared callee) machine := by
  refine .bind (.get (.pure _)) fun _ _ _ => ?_
  split
  · exact .bind (sparing_onHeap (Heap.appends_prepare _)) fun _ _ _ => .pure _
  · exact .throw _

theorem sparing_callHost (native : Native) (receiver? : Option CellId) (arguments : List CellId)
    (machine : Machine) : Leads (Sparing cell) (callHost native receiver? arguments) machine := by
  induction arguments generalizing native machine with
  | nil =>
    unfold callHost
    exact .bind (sparing_callPlain native [] machine) fun _ _ _ => .pure _
  | cons first rest inductionHypothesis =>
    unfold callHost
    split
    · refine .bind (sparing_prepared first machine) fun function middle _ => .get ?_
      split
      · exact inductionHypothesis _ middle
      · exact .pure _
    · exact .bind (sparing_callPlain native _ machine) fun _ _ _ => .pure _

/-! ### Calls -/

theorem sparing_bindParameters (names : List Text) (arguments : List CellId) (machine : Machine) :
    Leads (Sparing cell) (bindParameters names arguments) machine := by
  induction names generalizing arguments machine with
  | nil => exact .pure ()
  | cons name names inductionHypothesis =>
    have ending (rest : List CellId) (bound : CellId) (middle : Machine) :
        Leads (Sparing cell) (do
          onScopes fun scopes => scopes.bind name bound
          bindParameters names rest) middle :=
      .bind (sparing_onScopes _ middle) fun _ last _ => inductionHypothesis rest last
    cases arguments with
    | nil =>
      exact .bind (sparing_onHeap (Heap.appends_allocateContent _)) fun bound middle _ =>
        ending [] bound middle
    | cons argument rest =>
      exact .bind (sparing_onHeap (Heap.appends_copy argument)) fun bound middle _ =>
        ending rest bound middle

theorem sparing_enter (function : FunctionId) (arguments : List CellId) (construct : Bool)
    (machine : Machine) : Leads (Sparing cell) (enter function arguments construct) machine := by
  have opened (middle : Machine) : Leads (Sparing cell) (do
      onScopes Scopes.push
      let body := (← get).heap.function function
      bindParameters body.params arguments
      modify fun machine => { machine with current := body.entry - 1 }) middle :=
    .bind (sparing_onScopes _ middle) fun _ pushed _ => .get
      (.bind (sparing_bindParameters _ _ pushed) fun _ _ _ => sparing_modify _ rfl)
  cases construct with
  | false => exact opened machine
  | true =>
    refine .bind (.bind (sparing_onHeap ?_) fun _ _ _ => sparing_modify _ rfl)
      fun _ middle _ => opened middle
    exact Heap.appends_bind Heap.appends_allocateObject fun _ => Heap.appends_get fun _ =>
      Heap.appends_bind (Heap.appends_copyPrototype _ _) fun _ => Heap.appends_pure _

theorem sparing_activate (function : FunctionId) (receiver? : Option CellId)
    (arguments : List CellId) (waiting : Waiting) (machine : Machine) :
    Leads (Sparing cell) (activate function receiver? arguments waiting) machine := by
  have entering (this : CellId) (middle : Machine) :
      Leads (Sparing cell) (activate function (some this) arguments waiting) middle := by
    refine .bind (.pure this) ?_
    rintro _ _ ⟨⟩
    refine .get (.bind (sparing_modify _ rfl) fun _ _ _ =>
      .bind (sparing_modify _ rfl) fun _ saved _ => .get ?_)
    split
    · exact .bind (sparing_popFrame saved) fun _ _ _ =>
        .bind (sparing_modify _ rfl) fun _ _ _ => .throw _
    · exact .bind (sparing_enter function arguments false saved) fun _ _ _ =>
        .bind (sparing_modify _ rfl) fun _ _ _ => .pure _
  cases receiver? with
  | some this => exact entering this machine
  | none => exact .bind (sparing_receiver machine) fun this middle _ => entering this middle

theorem sparing_conclude (activation : Activation) (machine : Machine) :
    Leads (Sparing cell) (conclude activation) machine := by
  refine .bind (sparing_modify _ rfl) fun _ moved _ => ?_
  refine .bind (sparing_pop moved) fun _ _ _ => .get ?_
  split
  · exact .throw _
  · exact .bind (sparing_modify _ rfl) fun _ _ _ => .pure _

theorem sparing_finishNative (construct : Bool) (result : CellId) (machine : Machine) :
    Leads (Sparing cell) (finishNative construct result) machine := by
  refine .bind (sparing_leaveFrame machine) fun _ left _ =>
    .bind (sparing_pushCell result left) fun _ pushed _ => ?_
  cases construct with
  | false => exact sparing_setFlags pushed
  | true =>
    exact .bind (sparing_modify _ rfl) fun _ _ _ => .bind (sparing_modify _ rfl) fun _ cleared _ =>
      sparing_setFlags cleared

theorem sparing_callNative (native : Native) (arguments : List CellId) (construct : Bool)
    (machine : Machine) :
    Leads (Sparing cell) (callNative native arguments construct) machine := by
  refine .bind (sparing_receiver machine) fun this found _ => .bind (.tryCatch ?_ ?_) ?_
  · refine .bind (sparing_callHost native _ arguments found) fun host hosted _ => ?_
    cases host with
    | value result => exact .pure _
    | enter function receiver? passed =>
      exact .bind (sparing_activate function receiver? passed _ hosted) fun _ _ _ => .pure _
  · intro fault failed _
    cases fault with
    | script fault => exact .bind (sparing_leaveFrame failed) fun _ _ _ => .throw _
    | malformed | breakdown => exact .throw _
  · intro way reached _
    cases way with
    | inl result =>
      exact .bind (sparing_finishNative construct result reached) fun _ _ _ => .pure _
    | inr activation => exact .pure _

theorem sparing_call (count : Nat) (machine : Machine) :
    Leads (Sparing cell) (call count) machine := by
  refine .bind (sparing_popOnto count [] machine) fun arguments taken _ => ?_
  refine .bind (sparing_pop taken) fun callee popped _ => .get ?_
  refine .bind (sparing_modify _ rfl) fun _ _ _ =>
    .bind (sparing_modify _ rfl) fun _ cleared _ => .get ?_
  split
  · exact .bind (sparing_popFrame cleared) fun _ _ _ => .throw _
  · refine .bind (.get (.pure _)) fun content read _ => ?_
    split
    · exact .bind (sparing_popFrame read) fun _ _ _ => .throw _
    · refine .bind (sparing_onHeap (Heap.appends_prepare _)) fun _ prepared _ => .get ?_
      split
      · exact sparing_callNative _ _ _ prepared
      · exact .bind (sparing_enter _ _ _ prepared) fun _ _ _ => .pure _

theorem sparing_ret (machine : Machine) : Leads (Sparing cell) ret machine := by
  refine .bind (sparing_pop machine) fun result popped _ => .get ?_
  have ending (middle : Machine) :
      Leads (Sparing cell) (do pushCell result.cell; onScopes Scopes.pop; setFlags) middle :=
    .bind (sparing_pushCell _ middle) fun _ pushed _ =>
      .bind (sparing_onScopes _ pushed) fun _ closed _ => sparing_setFlags closed
  split
  · exact .get (.throw _)
  · split
    · have found (frame : Frame) : Leads (Sparing cell) (constructed frame) popped := by
        refine .get ?_
        split
        · exact .pure _
        · exact sparing_receiver popped
      exact .bind (found _) fun this made _ => .bind (sparing_restore made) fun _ _ _ =>
        .bind (sparing_modify _ rfl) fun _ _ _ => .bind (sparing_modify _ rfl) fun _ cleared _ =>
          ending cleared
    · exact .bind (sparing_restore popped) fun _ restored _ => ending restored

/-! ### Instructions that write -/

/-- The cell that is written into by taking so many operands: the topmost one, if the operands are
there and it takes another value. -/
def target? (machine : Machine) (taken : Nat) : Option CellId :=
  if taken ≤ machine.operands.size then
    (machine.operands.back?.map Operand.cell).filter machine.heap.writable
  else none

/-- The cell that an instruction writes into. -/
def written? (machine : Machine) (instruction : Instruction CellId) : Option CellId :=
  if instruction.opcode ∈ [.store, .inc, .dec, .pinc, .pdec] then
    machine.target? instruction.operandsTaken
  else none

theorem target?_of_topmost {taken : Nat} {operand : Operand}
    (enough : taken ≤ machine.operands.size) (topmost : machine.operands.back? = some operand)
    (writable : machine.heap.writable operand.cell = true) :
    machine.target? taken = some operand.cell := by
  unfold target?
  rw [if_pos enough, topmost]
  exact Option.filter_eq_some_iff.mpr ⟨rfl, writable⟩

theorem size_pos_of_back? {Value : Type} {values : Array Value} {value : Value}
    (last : values.back? = some value) : 0 < values.size := by
  obtain ⟨rest, rfl⟩ := Array.back?_eq_some_iff.mp last
  rw [Array.size_push]
  exact Nat.succ_pos _

/-- Writing into a cell is `Sparing` every other one. -/
theorem sparing_setContent {target : CellId} (content : Content) (machine : Machine)
    (other : target ≠ cell) :
    Leads (Sparing cell) (onHeap (Heap.setContent target content)) machine := by
  refine .single fun has => ⟨?_, ?_⟩
  · change cell.index < (machine.heap.cells.setIfInBounds target.index _).size
    rwa [Array.size_setIfInBounds]
  · exact Heap.cell_setContent_other other content machine.heap

theorem sparing_store (spared : machine.target? 2 ≠ some cell) :
    Leads (Sparing cell) store machine := by
  refine .bind (sparing_pop machine) fun target popped taken => ?_
  obtain ⟨topmost, rfl⟩ := pop_eq_ok.mp taken
  refine .bind (sparing_pop _) fun source rest taken => ?_
  obtain ⟨second, rfl⟩ := pop_eq_ok.mp taken
  refine .bind (.get (.pure _)) ?_
  rintro content _ ⟨⟩
  refine .get ?_
  have ending (last : Machine) : Leads (Sparing cell) (do push target; setFlags) last :=
    .bind (sparing_modify _ rfl) fun _ final _ => sparing_setFlags final
  dsimp only
  split
  · rename_i writable
    refine .bind (sparing_setContent _ _ ?_) fun _ last _ => ending last
    rintro rfl
    have below := size_pos_of_back? second
    rw [Array.size_pop] at below
    exact spared (target?_of_topmost (by omega) topmost writable)
  · exact ending _

theorem sparing_increment (difference : Float) (spared : machine.target? 1 ≠ some cell) :
    Leads (Sparing cell) (increment difference) machine := by
  refine .bind (sparing_pop machine) fun operand popped taken => ?_
  obtain ⟨topmost, rfl⟩ := pop_eq_ok.mp taken
  refine .get ?_
  dsimp only
  split
  · rename_i writable
    refine .bind (sparing_setContent _ _ ?_) fun _ last _ => sparing_pushResult operand.cell last
    rintro rfl
    exact spared (target?_of_topmost (size_pos_of_back? topmost) topmost writable)
  · exact sparing_pushContent _ _

theorem sparing_incrementAfter (difference : Float) (spared : machine.target? 1 ≠ some cell) :
    Leads (Sparing cell) (incrementAfter difference) machine := by
  refine .bind (sparing_pop machine) fun operand popped taken => ?_
  obtain ⟨topmost, rfl⟩ := pop_eq_ok.mp taken
  refine .get ?_
  dsimp only
  split
  · rename_i writable
    refine .bind (sparing_setContent _ _ ?_) fun _ last _ => sparing_pushContent _ last
    rintro rfl
    exact spared (target?_of_topmost (size_pos_of_back? topmost) topmost writable)
  · exact sparing_pushContent _ _

/-! ### Every instruction -/

theorem sparing_nameOf (datum : Datum CellId) (machine : Machine) :
    Leads (Sparing cell) (nameOf datum) machine := by
  unfold nameOf
  split
  · exact .pure _
  · exact .pure _
  · exact .get (.throw _)

theorem sparing_countOf (datum : Datum CellId) (machine : Machine) :
    Leads (Sparing cell) (countOf datum) machine := by
  unfold countOf
  split
  · exact .pure _
  · exact .get (.throw _)

theorem sparing_literal (datum : Datum CellId) (machine : Machine) :
    Leads (Sparing cell) (literal datum) machine := by
  unfold literal
  split
  · exact sparing_onHeap (Heap.appends_allocateContent _)
  · exact sparing_onHeap (Heap.appends_allocateContent _)
  · exact sparing_onHeap (Heap.appends_allocateContent _)
  · exact sparing_onHeap (Heap.appends_allocateContent _)
  · split
    · exact .pure _
    · exact .get (.throw _)
  · exact .get (.throw _)

theorem sparing_fetch (name : Text) (machine : Machine) :
    Leads (Sparing cell) (fetch name) machine := by
  unfold fetch
  split
  · exact .bind (sparing_receiver machine) fun _ _ _ => sparing_modify _ rfl
  · refine .get ?_
    split
    · split
      · exact sparing_modify _ rfl
      · exact .throw _
    · exact .throw _

theorem sparing_negate (negation : Int32 → Content) (machine : Machine) :
    Leads (Sparing cell) (negate negation) machine := by
  refine .bind (sparing_pop machine) fun operand popped _ => .get ?_
  dsimp only
  split
  · exact sparing_pushContent _ popped
  · exact sparing_pushContent _ popped

theorem sparing_applyBinary (operator : BinaryOperator) (machine : Machine) :
    Leads (Sparing cell) (applyBinary operator) machine :=
  .bind (sparing_pop machine) fun _ popped _ => .bind (sparing_pop popped) fun _ rest _ =>
    .get (sparing_pushContent _ rest)

theorem sparing_popProperties (count : Nat) (machine : Machine) :
    Leads (Sparing cell) (popProperties count) machine := by
  refine .get ?_
  split
  · exact .get (.throw _)
  · dsimp only
    split
    · exact .throw _
    · refine .bind (sparing_onHeap ?_) fun made _ _ => .bind (sparing_modify _ rfl) fun _ rest _ =>
        sparing_pushResult made rest
      exact Heap.appends_bind Heap.appends_allocateObject fun _ => Heap.appends_get fun _ =>
        Heap.appends_bind (Heap.appends_setOperands _ _) fun _ => Heap.appends_pure _

theorem sparing_replaceByProperty (datum : Datum CellId) (machine : Machine) :
    Leads (Sparing cell) (replaceByProperty datum) machine :=
  .bind (sparing_pop machine) fun _ _ _ => .bind (sparing_modify _ rfl) fun _ given _ =>
    .bind (sparing_nameOf datum given) fun _ _ _ => .bind (.get (.pure _)) fun _ _ _ =>
      .bind (sparing_onHeap (Heap.appends_getProperty _ _)) fun found last _ =>
        sparing_pushResult found last

theorem sparing_replaceByElement (machine : Machine) :
    Leads (Sparing cell) replaceByElement machine :=
  .bind (sparing_pop machine) fun _ popped _ => .bind (sparing_pop popped) fun _ _ _ => .get
    (.bind (sparing_onHeap (Heap.appends_getProperty _ _)) fun found got _ =>
      .bind (sparing_pushCell found got) fun _ _ _ => .bind (sparing_modify _ rfl) fun _ last _ =>
        sparing_setFlags last)

theorem sparing_moveIntoArray (array : ArrayId) (count : Nat) (machine : Machine) :
    Leads (Sparing cell) (moveIntoArray array count) machine := by
  induction count generalizing machine with
  | zero => exact .pure ()
  | succ position inductionHypothesis =>
    refine .bind (sparing_pop machine) fun operand _ _ => .bind (sparing_onHeap ?_)
      fun _ moved _ => inductionHypothesis moved
    exact Heap.appends_bind (Heap.appends_copy _) fun copied =>
      Heap.appends_assignElement array position copied

theorem sparing_fillAccumulator (datum : Datum CellId) (machine : Machine) :
    Leads (Sparing cell) (fillAccumulator datum) machine := by
  refine .get ?_
  split
  · exact .bind (sparing_countOf datum machine) fun _ counted _ => sparing_moveIntoArray _ _ counted
  · exact .get (.throw _)

theorem sparing_popReceiver (machine : Machine) : Leads (Sparing cell) popReceiver machine := by
  refine .get ?_
  split
  · exact .bind (sparing_pushCell _ machine) fun _ _ _ => sparing_modify _ rfl
  · split
    · exact sparing_pushCell _ machine
    · exact .throw _

theorem sparing_executePlain {instruction : Instruction CellId}
    (spared : machine.written? instruction ≠ some cell) :
    Leads (Sparing cell) (executePlain instruction) machine := by
  obtain ⟨opcode, offset, datum⟩ := instruction
  unfold executePlain
  cases opcode with
  | store => exact sparing_store spared
  | inc | dec => exact sparing_increment _ spared
  | pinc | pdec => exact sparing_incrementAfter _ spared
  | ret => exact sparing_ret machine
  | noop | loopz => exact .pure ()
  | fetch => exact .bind (sparing_nameOf datum machine) fun name named _ => sparing_fetch name named
  | push =>
    exact .bind (sparing_literal datum machine) fun pushed last _ => sparing_pushResult pushed last
  | pushim =>
    refine .get ?_
    split
    · exact sparing_pushResult _ machine
    · exact .get (.throw _)
  | poprop =>
    exact .bind (sparing_countOf datum machine) fun count counted _ =>
      sparing_popProperties count counted
  | replprop => exact sparing_replaceByProperty datum machine
  | index => exact sparing_replaceByElement machine
  | res =>
    exact .bind (sparing_countOf datum machine) fun size _ _ =>
      .bind (sparing_onHeap (Heap.appends_allocateArray size)) fun _ _ _ => sparing_modify _ rfl
  | news =>
    exact .bind (sparing_nameOf datum machine) fun _ _ _ =>
      .bind (sparing_onHeap (Heap.appends_allocateContent _)) fun _ made _ =>
        sparing_onScopes _ made
  | cpya => exact sparing_fillAccumulator datum machine
  | maps =>
    exact .bind (sparing_top machine) fun _ found _ =>
      .bind (sparing_nameOf datum found) fun _ _ _ => sparing_modify _ rfl
  | jmp | leave | markst => exact sparing_modify _ rfl
  | jmpz | jmpnz =>
    refine .get ?_
    split
    · exact sparing_modify _ rfl
    · exact .pure ()
  | pushthis => exact sparing_popReceiver machine
  | snot | bnot => exact sparing_negate _ machine
  | adds | subs | muls | divs | rems | lts | gts | ltes | gtes | eqs | neqs | shls | shrs | bors
  | bands | ors | ands | xors => exact sparing_applyBinary _ machine
  | call | unknown => exact .get (.throw _)

/-- An instruction is `Sparing` every cell but the one that is `written?`. -/
theorem sparing_execute {instruction : Instruction CellId}
    (spared : machine.written? instruction ≠ some cell) :
    Leads (Sparing cell) (execute instruction) machine := by
  unfold execute
  split
  · exact .bind (sparing_countOf _ machine) fun count counted _ => sparing_call count counted
  · exact .bind (sparing_executePlain spared) fun _ _ _ => .pure _

/-! ### Moves -/

theorem sparing_unwind (fault : ScriptFault) (pending : List Activation) (machine : Machine) :
    Leads (Sparing cell) (unwind fault pending) machine := by
  induction pending generalizing fault machine with
  | nil => exact .throw _
  | cons activation pending inductionHypothesis =>
    unfold unwind
    split
    · exact .throw _
    · exact .bind (sparing_leaveFrame machine) fun _ left _ => .get (inductionHypothesis _ left)

theorem sparing_stepOver (machine : Machine) : Leads (Sparing cell) stepOver machine :=
  sparing_modify _ (heap_stepped machine)

theorem sparing_executeNext {pending : List Activation}
    (spared : machine.instruction?.bind machine.written? ≠ some cell) :
    Leads (Sparing cell) (executeNext pending) machine := by
  refine .get ?_
  split
  · exact .get (.throw _)
  · rename_i instruction next
    rw [next] at spared
    refine .bind (.tryCatch (.map _ (sparing_execute spared)) ?_) ?_
    · intro fault failed _
      cases fault with
      | script fault => exact .pure _
      | malformed | breakdown => exact .throw _
    · intro flow executed _
      cases flow with
      | inl flow =>
        cases flow with
        | done => exact .bind (sparing_stepOver executed) fun _ _ _ => .pure _
        | suspended activation => exact .pure _
      | inr fault => exact .get (sparing_unwind _ pending executed)

theorem sparing_resume (activation : Activation) (pending : List Activation) (machine : Machine) :
    Leads (Sparing cell) (resume activation pending) machine := by
  refine .bind (sparing_conclude activation machine) fun result concluded _ => ?_
  split
  · exact .pure _
  · exact .bind (sparing_finishNative _ result concluded) fun _ finished _ =>
      .bind (sparing_stepOver finished) fun _ _ _ => .pure _

end Machine

namespace Configuration

open Machine

/-- The cell that the next move writes into. -/
def written? (configuration : Configuration) : Option CellId :=
  match configuration.machine.nextMove configuration.pending with
  | .execute => configuration.machine.instruction?.bind configuration.machine.written?
  | _ => none

/-- A move, `advance`, is `Sparing` every cell but the one that is `written?`, however it ends. -/
theorem sparing_advance {configuration : Configuration} {cell : CellId}
    (spared : configuration.written? ≠ some cell) :
    Sparing cell configuration.machine
      (leftBy (advance configuration.pending) configuration.machine) := by
  refine Leads.sparing (.get ?_)
  unfold written? at spared
  split
  · exact .pure _
  · exact sparing_unwind _ _ _
  · exact sparing_resume _ _ _
  · rename_i next
    rw [next] at spared
    exact sparing_executeNext spared

end Configuration

end ScriptEngine
