/-
This file says what the instructions that neither call nor return can do. Their elementary
changes are quiet: they leave the frames, the program and all scopes but the innermost alone.
On the two stacks such an instruction takes a fixed number of places off the top before it
puts anything there, and what lies below keeps its cells. Both facts are collected in one
judgement about an action on a machine, which composes along a sequence of actions.
-/

import ScriptEngine.Proofs.Action
import ScriptEngine.Proofs.Memory

namespace ScriptEngine

open Relation

namespace Machine

/-! ### Quiet changes -/

/-- One elementary change that leaves the frames, the program and the outer scopes alone. -/
inductive Quiet : Machine → Machine → Prop where
  | operands (machine : Machine) (operands : Array Operand) :
    Quiet machine { machine with operands }
  | receivers (machine : Machine) (receivers : Array CellId) :
    Quiet machine { machine with receivers }
  | flags (machine : Machine) (flags : Flags) : Quiet machine { machine with flags }
  | accumulator (machine : Machine) (accumulator : Option CellId) :
    Quiet machine { machine with accumulator }
  | current (machine : Machine) (current : Int64) : Quiet machine { machine with current }
  | output (machine : Machine) (output : Array Text) : Quiet machine { machine with output }
  | memory (machine : Machine) (heap : Heap) (change : Heap.Change machine.heap heap) :
    Quiet machine { machine with heap }
  /-- A cell is made and bound in the innermost scope. -/
  | binding (machine : Machine) (name : Text) (cell : Cell) :
    Quiet machine
      { machine with
        heap := { machine.heap with cells := machine.heap.cells.push cell }
        scopes := machine.scopes.bind name ⟨machine.heap.cells.size⟩ }

theorem quiet_memory {machine : Machine} {heap : Heap}
    (changes : ReflTransGen Heap.Change machine.heap heap) :
    ReflTransGen Quiet machine { machine with heap } := by
  induction changes with
  | refl => exact .refl
  | tail _ change inductionHypothesis => exact inductionHypothesis.tail (.memory _ _ change)

/-! ### What is left alone on the stacks -/

/-- The cells of the operand stack, lowest first. -/
def cells (machine : Machine) : List CellId :=
  machine.operands.toList.map Operand.cell

@[simp]
theorem length_cells (machine : Machine) : machine.cells.length = machine.operands.size := by
  simp [cells]

/-- What lies below the topmost `taken` operands and `popped` receivers keeps its cells. -/
structure Spares (taken popped : Nat) (before after : Machine) : Prop where
  operands : ∀ height, height + taken ≤ before.operands.size →
    height ≤ after.operands.size ∧ after.cells.take height = before.cells.take height
  receivers : ∀ height, height + popped ≤ before.receivers.size →
    height ≤ after.receivers.size ∧
      after.receivers.toList.take height = before.receivers.toList.take height

namespace Spares

variable {taken popped : Nat} {before middle after : Machine}

/-- Where neither stack changes everything is spared. -/
theorem of_eq (operands : after.operands = before.operands)
    (receivers : after.receivers = before.receivers) : Spares 0 0 before after := by
  refine ⟨fun height room => ?_, fun height room => ?_⟩
  · rw [cells, cells, operands]
    exact ⟨room, rfl⟩
  · rw [receivers]
    exact ⟨room, rfl⟩

/-- Only the stacks count. -/
theorem congr {before' after' : Machine} (spares : Spares taken popped before after)
    (operands : before'.operands = before.operands)
    (receivers : before'.receivers = before.receivers)
    (operands' : after'.operands = after.operands)
    (receivers' : after'.receivers = after.receivers) : Spares taken popped before' after' := by
  refine ⟨fun height room => ?_, fun height room => ?_⟩
  · rw [cells, cells, operands, operands']
    exact spares.operands height (operands ▸ room)
  · rw [receivers, receivers']
    exact spares.receivers height (receivers ▸ room)

theorem trans {taken' popped' : Nat} (first : Spares taken popped before middle)
    (second : Spares taken' popped' middle after) :
    Spares (taken' + taken) (popped' + popped) before after := by
  refine ⟨fun height room => ?_, fun height room => ?_⟩
  · obtain ⟨room', lower⟩ := first.operands (height + taken') (by omega)
    obtain ⟨room'', lower'⟩ := second.operands height room'
    refine ⟨room'', lower'.trans ?_⟩
    have := congrArg (List.take height) lower
    rwa [List.take_take, List.take_take, Nat.min_eq_left (Nat.le_add_right _ _)] at this
  · obtain ⟨room', lower⟩ := first.receivers (height + popped') (by omega)
    obtain ⟨room'', lower'⟩ := second.receivers height room'
    refine ⟨room'', lower'.trans ?_⟩
    have := congrArg (List.take height) lower
    rwa [List.take_take, List.take_take, Nat.min_eq_left (Nat.le_add_right _ _)] at this

theorem push (machine : Machine) (operand : Operand) :
    Spares 0 0 machine { machine with operands := machine.operands.push operand } := by
  refine ⟨fun height room => ?_, fun height room => ⟨room, rfl⟩⟩
  simp only [cells, Array.size_push, Array.toList_push, List.map_append]
  refine ⟨by omega, List.take_append_of_le_length ?_⟩
  simpa using room

theorem pushReceiver (machine : Machine) (cell : CellId) :
    Spares 0 0 machine { machine with receivers := machine.receivers.push cell } := by
  refine ⟨fun height room => ⟨room, rfl⟩, fun height room => ?_⟩
  simp only [Array.size_push, Array.toList_push]
  refine ⟨by omega, List.take_append_of_le_length ?_⟩
  simpa using room

/-- Cutting the operand stack `Spares` what does not lie above the cut. -/
theorem shrink (machine : Machine) (count : Nat) :
    Spares count 0 machine
      { machine with operands := machine.operands.shrink (machine.operands.size - count) } := by
  refine ⟨fun height room => ?_, fun height room => ⟨room, rfl⟩⟩
  simp only [cells, Array.size_shrink, Array.toList_shrink, List.map_take, List.take_take]
  refine ⟨by omega, ?_⟩
  rw [Nat.min_eq_left (by omega)]

theorem pop (machine : Machine) :
    Spares 1 0 machine { machine with operands := machine.operands.pop } := by
  refine ⟨fun height room => ?_, fun height room => ⟨room, rfl⟩⟩
  simp only [cells, Array.size_pop, Array.toList_pop, List.dropLast_eq_take, List.map_take,
    List.take_take, Array.length_toList]
  refine ⟨by omega, ?_⟩
  rw [Nat.min_eq_left (by omega)]

theorem popReceiver (machine : Machine) :
    Spares 0 1 machine { machine with receivers := machine.receivers.pop } := by
  refine ⟨fun height room => ⟨room, rfl⟩, fun height room => ?_⟩
  simp only [Array.size_pop, Array.toList_pop, List.dropLast_eq_take, List.take_take,
    Array.length_toList]
  refine ⟨by omega, ?_⟩
  rw [Nat.min_eq_left (by omega)]

/-- Giving the topmost operand another key changes no cell. -/
theorem rekey (machine : Machine) (operand : Operand) (key : Text)
    (topmost : machine.operands.back? = some operand) :
    Spares 0 0 machine
      { machine with operands := machine.operands.pop.push { operand with key } } := by
  have same : ({ machine with operands := machine.operands.pop.push { operand with key } } :
      Machine).cells = machine.cells := by
    obtain ⟨rest, equal⟩ := Array.back?_eq_some_iff.mp topmost
    simp [cells, equal]
  refine ⟨fun height room => ⟨?_, by rw [same]⟩, fun height room => ⟨room, rfl⟩⟩
  rw [← length_cells, same, length_cells]
  exact room

end Spares

/-! ### The judgement -/

variable {Result Next : Type}

/-- On a machine an action only makes quiet changes, and if it succeeds it has taken at most
`taken` operands and `popped` receivers. -/
structure Local (taken popped : Nat) (action : Action Result) (machine : Machine) : Prop where
  quiet : Leads Quiet action machine
  spares : ∀ result final, action machine = .ok result final → Spares taken popped machine final

namespace Local

variable {taken popped : Nat} {machine : Machine}

theorem pure (result : Result) : Local 0 0 (Pure.pure result : Action Result) machine :=
  ⟨.pure result, by rintro _ _ ⟨⟩; exact .of_eq rfl rfl⟩

/-- What fails takes nothing: it is `Local`. -/
theorem throw (fault : Fault) :
    Local taken popped (MonadExcept.throw fault : Action Result) machine :=
  ⟨.throw fault, by rintro _ _ ⟨⟩⟩

theorem modify (change : Machine → Machine) (quiet : Quiet machine (change machine))
    (spares : Spares taken popped machine (change machine)) :
    Local taken popped (modify change) machine :=
  ⟨.modify change quiet, by rintro _ _ ⟨⟩; exact spares⟩

/-- An action that takes nothing may come first in one that is `Local`. -/
theorem bind {action : Action Result} {next : Result → Action Next}
    (first : Local 0 0 action machine)
    (second : ∀ result middle, action machine = .ok result middle →
      Local taken popped (next result) middle) :
    Local taken popped (action >>= next) machine := by
  refine ⟨first.quiet.bind fun result middle ends => (second result middle ends).quiet, ?_⟩
  intro value final ends
  obtain ⟨result, middle, started, ended⟩ := bind_eq_ok.mp ends
  exact (first.spares result middle started).trans
    ((second result middle started).spares value final ended)

/-- An action that takes nothing may come last in one that is `Local`. -/
theorem andThen {action : Action Result} {next : Result → Action Next}
    (first : Local taken popped action machine)
    (second : ∀ result middle, action machine = .ok result middle →
      Local 0 0 (next result) middle) :
    Local taken popped (action >>= next) machine := by
  refine ⟨first.quiet.bind fun result middle ends => (second result middle ends).quiet, ?_⟩
  intro value final ends
  obtain ⟨result, middle, started, ended⟩ := bind_eq_ok.mp ends
  have both := (first.spares result middle started).trans
    ((second result middle started).spares value final ended)
  rwa [Nat.zero_add, Nat.zero_add] at both

theorem get {next : Machine → Action Next} (rest : Local taken popped (next machine) machine) :
    Local taken popped (MonadState.get >>= next) machine :=
  ⟨.get rest.quiet, rest.spares⟩

end Local

/-! ### Elementary moves -/

theorem top_of_some {machine : Machine} {operand : Operand}
    (topmost : machine.operands.back? = some operand) : top machine = .ok operand machine := by
  unfold top
  rw [get_bind, topmost]
  rfl

theorem top_of_none {machine : Machine} (empty : machine.operands.back? = none) :
    top machine = .error (.malformed machine.place .operandUnderflow) machine := by
  unfold top
  rw [get_bind, empty]
  rfl

theorem top_eq_ok {machine final : Machine} {operand : Operand} :
    top machine = .ok operand final ↔ machine.operands.back? = some operand ∧ final = machine := by
  cases topmost : machine.operands.back? with
  | none => simp [top_of_none topmost]
  | some other => simp [top_of_some topmost, eq_comm]

theorem pop_of_some {machine : Machine} {operand : Operand}
    (topmost : machine.operands.back? = some operand) :
    pop machine = .ok operand { machine with operands := machine.operands.pop } := by
  unfold pop
  rw [bind_of_ok (top_of_some topmost)]
  rfl

theorem pop_of_none {machine : Machine} (empty : machine.operands.back? = none) :
    pop machine = .error (.malformed machine.place .operandUnderflow) machine := by
  unfold pop
  rw [bind_of_error (top_of_none empty)]

theorem pop_eq_ok {machine final : Machine} {operand : Operand} :
    pop machine = .ok operand final ↔ machine.operands.back? = some operand ∧
      final = { machine with operands := machine.operands.pop } := by
  cases topmost : machine.operands.back? with
  | none => simp [pop_of_none topmost]
  | some other => simp [pop_of_some topmost, eq_comm]

/-- Taking the topmost operand and going on with what is `Local` takes one operand more. -/
theorem Local.pop {taken popped : Nat} {machine : Machine} {next : Operand → Action Next}
    (rest : ∀ operand, machine.operands.back? = some operand →
      Local taken popped (next operand) { machine with operands := machine.operands.pop }) :
    Local (taken + 1) popped (Machine.pop >>= next) machine := by
  cases topmost : machine.operands.back? with
  | none =>
    have fails : (Machine.pop >>= next) machine = .error _ machine :=
      bind_of_error (pop_of_none topmost)
    refine ⟨?_, fun _ _ ends => by rw [fails] at ends; cases ends⟩
    unfold Leads
    rw [leftBy_of_error fails]
  | some operand =>
    have goesOn : (Machine.pop >>= next) machine = next operand _ :=
      bind_of_ok (pop_of_some topmost)
    have later := rest operand topmost
    constructor
    · unfold Leads leftBy
      rw [goesOn]
      exact .head (.operands machine _) later.quiet
    · intro value final ends
      rw [goesOn] at ends
      exact (Spares.pop machine).trans (later.spares value final ends)

theorem local_top (machine : Machine) : Local 0 0 top machine := by
  cases topmost : machine.operands.back? with
  | none =>
    refine ⟨?_, fun _ _ ends => by rw [top_of_none topmost] at ends; cases ends⟩
    unfold Leads
    rw [leftBy_of_error (top_of_none topmost)]
  | some operand =>
    refine ⟨?_, fun _ _ ends => ?_⟩
    · unfold Leads
      rw [leftBy_of_ok (top_of_some topmost)]
    · rw [top_of_some topmost] at ends
      cases ends
      exact .of_eq rfl rfl

theorem local_malformed (taken popped : Nat) (malformation : Malformation) (machine : Machine) :
    Local taken popped (malformed malformation : Action Result) machine :=
  .get (.throw _)

theorem local_raise (taken popped : Nat) (cause : Cause) (machine : Machine) :
    Local taken popped (raise cause : Action Result) machine :=
  .throw _

theorem local_breakDown (taken popped : Nat) (breakdown : Breakdown) (machine : Machine) :
    Local taken popped (breakDown breakdown : Action Result) machine :=
  .throw _

theorem local_contentOf (cell : CellId) (machine : Machine) :
    Local 0 0 (contentOf cell) machine :=
  .get (.pure _)

theorem local_push (operand : Operand) (machine : Machine) : Local 0 0 (push operand) machine :=
  .modify _ (.operands machine _) (.push machine operand)

theorem local_pushCell (cell : CellId) (machine : Machine) : Local 0 0 (pushCell cell) machine :=
  local_push _ machine

theorem local_pushReceiver (cell : CellId) (machine : Machine) :
    Local 0 0 (pushReceiver cell) machine :=
  .modify _ (.receivers machine _) (.pushReceiver machine cell)

theorem local_setFlags (machine : Machine) : Local 0 0 setFlags machine :=
  .bind (local_top machine) fun _ middle _ => .bind (local_contentOf _ middle) fun _ last _ =>
    .modify _ (.flags last _) (.of_eq rfl rfl)

theorem local_onHeap {operation : StateM Heap Result} (machine : Machine)
    (changes : ReflTransGen Heap.Change machine.heap (operation machine.heap).2) :
    Local 0 0 (onHeap operation) machine :=
  ⟨quiet_memory changes, by rintro _ _ ⟨⟩; exact .of_eq rfl rfl⟩

theorem local_pushContent (content : Content) (machine : Machine) :
    Local 0 0 (pushContent content) machine :=
  .bind (local_onHeap machine (Heap.changes_allocateContent content _)) fun _ middle _ =>
    local_pushCell _ middle

theorem local_receiver (machine : Machine) : Local 0 0 receiver machine := by
  refine .get ?_
  split
  · exact .pure _
  · split
    · exact .pure _
    · exact local_breakDown ..

/-- A new cell bound in the innermost scope is `Local`. -/
theorem local_bindNew (name : Text) (operation : StateM Heap CellId) (content : Content)
    (machine : Machine)
    (makes : operation machine.heap = Heap.allocateContent content machine.heap) :
    Local 0 0 (do
      let cell ← onHeap operation
      onScopes fun scopes => scopes.bind name cell) machine := by
  have made : onHeap operation machine = .ok ⟨machine.heap.cells.size⟩
      { machine with
        heap := { machine.heap with cells := machine.heap.cells.push { content } } } := by
    change EStateM.Result.ok (operation machine.heap).1 _ = _
    rw [makes]
    rfl
  have ends : (onHeap operation >>= fun cell => onScopes fun scopes => scopes.bind name cell)
      machine = onScopes (fun scopes => scopes.bind name _) _ :=
    bind_of_ok made
  cases usable : machine.attached with
  | true =>
    rw [onScopes_of_attached (by exact usable)] at ends
    refine ⟨?_, fun _ _ same => ?_⟩
    · unfold Leads
      rw [leftBy_of_ok ends]
      exact .single (.binding machine name { content })
    · cases ends.symm.trans same
      exact .of_eq rfl rfl
  | false =>
    rw [onScopes_of_detached (by exact usable)] at ends
    refine ⟨?_, fun _ _ same => ?_⟩
    · unfold Leads
      rw [leftBy_of_error ends]
      exact .single (.memory machine _ (.cell _ _))
    · cases ends.symm.trans same

end Machine

end ScriptEngine
