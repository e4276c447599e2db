/-
This file proves that a script can always assign to what it finds under a name of an object, a
function or an array, and to an element of an array: on every machine that executions of accepted
programs reach, these slots hold cells that take another content. A cell gets into such a slot only
in the change that makes it, and then it is writable; read-only cells are made for constants and for
what has no slot, and no change puts a mark on a cell that is there already.
-/

import ScriptEngine.Proofs.Completeness
import ScriptEngine.Proofs.Filling
import ScriptEngine.Proofs.Reporting
import ScriptEngine.Proofs.Separation

namespace ScriptEngine

open Relation

namespace Heap

variable {before after heap : Heap} {cell : CellId}

/-! ### Cells that take another content -/

/-- A cell has been made and takes another content. -/
def Takes (heap : Heap) (cell : CellId) : Prop :=
  heap.Has cell ∧ heap.writable cell = true

theorem takes_of_appended {more : Array Cell} (cells : after.cells = before.cells ++ more)
    (takes : before.Takes cell) : after.Takes cell := by
  obtain ⟨has, writable⟩ := takes
  refine ⟨Nat.lt_of_lt_of_le has (by rw [cells, Array.size_append]; exact Nat.le_add_right _ _), ?_⟩
  unfold Heap.writable at writable ⊢
  rwa [cell_of_has has cells]

theorem takes_setContent (takes : heap.Takes cell) (target : CellId) (content : Content) :
    (setContent target content heap).2.Takes cell := by
  obtain ⟨has, writable⟩ := takes
  refine ⟨Nat.lt_of_lt_of_eq has Array.size_setIfInBounds.symm, ?_⟩
  unfold Heap.writable at writable ⊢
  by_cases same : target = cell
  · subst same
    rwa [cell_setContent_self has]
  · rwa [cell_setContent_other same]

/-! ### Slots that take another content -/

/-- Every property and every element takes another content. -/
structure Assignable (heap : Heap) : Prop where
  names : ∀ owner name cell, (heap.namesOf owner).get? name = some cell → heap.Takes cell
  elements : ∀ id (position : Nat) cell,
    (heap.array id).elements[position]? = some cell → heap.Takes cell

namespace Assignable

/-- Where no cell comes into a slot and no mark is set, all slots stay `Assignable`. -/
theorem of_kept (assignable : before.Assignable)
    (takes : ∀ cell, before.Takes cell → after.Takes cell)
    (names : ∀ owner, after.namesOf owner = before.namesOf owner)
    (arrays : ∀ id, (after.array id).elements = (before.array id).elements) :
    after.Assignable := by
  constructor
  case names =>
    intro owner name cell found
    rw [names] at found
    exact takes cell (assignable.names owner name cell found)
  case elements =>
    intro id position cell found
    rw [arrays] at found
    exact takes cell (assignable.elements id position cell found)

/-- Where writable cells are made, and only these come into slots, all slots stay `Assignable`. -/
theorem of_appended {more : Array Cell} (assignable : before.Assignable)
    (cells : after.cells = before.cells ++ more)
    (writable : ∀ made ∈ more, made.readOnly = false)
    (names : ∀ owner name cell, (after.namesOf owner).get? name = some cell →
      (before.namesOf owner).get? name = some cell ∨
        before.cells.size ≤ cell.index ∧ after.Has cell)
    (elements : ∀ id (position : Nat) cell, (after.array id).elements[position]? = some cell →
      (before.array id).elements[position]? = some cell ∨
        before.cells.size ≤ cell.index ∧ after.Has cell) : after.Assignable := by
  have new {cell : CellId} (made : before.cells.size ≤ cell.index ∧ after.Has cell) :
      after.Takes cell := by
    obtain ⟨beyond, has⟩ := made
    refine ⟨has, ?_⟩
    have within : cell.index - before.cells.size < more.size := by
      unfold Heap.Has at has
      rw [cells, Array.size_append] at has
      omega
    unfold Heap.writable Heap.cell
    rw [cells, Array.getD_eq_getD_getElem?, Array.getElem?_append_right beyond,
      Array.getElem?_eq_getElem within, Option.getD_some, writable _ (Array.getElem_mem within)]
    rfl
  constructor
  case names =>
    intro owner name cell found
    rcases names owner name cell found with old | made
    · exact takes_of_appended cells (assignable.names owner name cell old)
    · exact new made
  case elements =>
    intro id position cell found
    rcases elements id position cell found with old | made
    · exact takes_of_appended cells (assignable.elements id position cell old)
    · exact new made

theorem newArray (assignable : heap.Assignable) {cells : Array Cell}
    (writable : ∀ cell ∈ cells, cell.readOnly = false) :
    (Heap.newArray (idsFrom heap.cells.size cells.size)
      { heap with cells := heap.cells ++ cells }).2.Assignable := by
  refine assignable.of_appended rfl writable (fun owner name cell found => .inl ?_)
    fun id position cell found => ?_
  · rwa [namesOf_newArray, namesOf_withCells] at found
  · rcases getElem?_newArray found with old | ⟨_, member⟩
    · exact .inl old
    · obtain ⟨index, within⟩ := getElem?_idsFrom member
      refine .inr ⟨by omega, ?_⟩
      change cell.index < (heap.cells ++ cells).size
      rw [Array.size_append]
      omega

theorem property (assignable : heap.Assignable) (owner : Content) (name : Text) {made : Cell}
    (writable : made.readOnly = false) :
    (modifyProperties owner (fun table => table.insert name ⟨heap.cells.size⟩)
      { heap with cells := heap.cells.push made }).2.Assignable := by
  have cells : (modifyProperties owner (fun table => table.insert name ⟨heap.cells.size⟩)
      { heap with cells := heap.cells.push made }).2.cells = heap.cells ++ #[made] :=
    (cells_modifyProperties ..).trans Array.append_singleton.symm
  refine assignable.of_appended cells (by simpa using writable)
    (fun other known cell found => ?_) fun id position cell found => .inl ?_
  · rcases namesOf_modifyProperties owner other
      (fun table => table.insert name ⟨heap.cells.size⟩)
      { heap with cells := heap.cells.push made } with same | ⟨rfl, changed⟩
    · rw [same, namesOf_withCells] at found
      exact .inl found
    · rw [changed, namesOf_withCells] at found
      rcases Table.get?_insert_cases found with old | ⟨rfl, rfl⟩
      · exact .inl old
      · refine .inr ⟨Nat.le_refl _, ?_⟩
        unfold Heap.Has
        rw [cells, Array.size_append]
        exact Nat.lt_succ_self _
  · rw [elements_modifyProperties] at found
    exact found

theorem growArray (assignable : heap.Assignable) (id : ArrayId) (size : Nat) :
    (Heap.growArray id size heap).2.Assignable := by
  refine assignable.of_appended rfl (fun made member => by rw [(Array.mem_replicate.mp member).2])
    (fun owner name cell found => .inl ?_) fun other position cell found => ?_
  · rwa [namesOf_growArray] at found
  · rcases getElem?_growArray found with old | ⟨_, _, beyond, within⟩
    · exact .inl old
    · exact .inr ⟨beyond, within⟩

theorem element (assignable : heap.Assignable) (id : ArrayId) (position : Nat) {made : Cell}
    (writable : made.readOnly = false) :
    (assignElement id position ⟨heap.cells.size⟩
      { heap with cells := heap.cells.push made }).2.Assignable := by
  generalize same : ({ heap with cells := heap.cells.push made } : Heap) = pushed
  have first : pushed.cells = heap.cells ++ #[made] := by
    rw [← same]
    exact Array.append_singleton.symm
  have size : pushed.cells.size = heap.cells.size + 1 := by
    rw [first, Array.size_append]
    rfl
  have cells : (assignElement id position ⟨heap.cells.size⟩ pushed).2.cells =
      heap.cells ++ (#[made] ++
        Array.replicate (position + 1 - (pushed.array id).elements.size) ({} : Cell)) := by
    rw [← Array.append_assoc, ← first]
    rfl
  have sizes := size_cells_growArray id (position + 1) pushed
  refine assignable.of_appended cells (fun other member => ?_)
    (fun owner name cell found => .inl ?_) fun other place cell found => ?_
  · rcases Array.mem_append.mp member with only | later
    · rw [Array.mem_singleton.mp only]
      exact writable
    · rw [(Array.mem_replicate.mp later).2]
  · rwa [namesOf_assignElement, ← same, namesOf_withCells] at found
  · rcases getElem?_assignElement found with grown | ⟨_, _, rfl⟩
    · rcases getElem?_growArray grown with old | ⟨_, _, beyond, within⟩
      · rw [← same] at old
        exact .inl old
      · exact .inr ⟨by omega, within⟩
    · refine .inr ⟨Nat.le_refl _, ?_⟩
      change heap.cells.size < (Heap.growArray id (position + 1) pushed).2.cells.size
      omega

/-- Slots stay `Assignable` over every `Change` of memory. -/
theorem change (assignable : before.Assignable) (change : Change before after) :
    after.Assignable := by
  cases change with
  | cell cell =>
    exact assignable.of_kept (fun _ => takes_of_appended Array.append_singleton.symm)
      (namesOf_withCells _ _) fun _ => rfl
  | write id content writable =>
    exact assignable.of_kept (fun _ takes => takes_setContent takes id content)
      (namesOf_withCells _ _) fun _ => rfl
  | object =>
    exact assignable.of_kept (fun _ takes => takes) (namesOf_newObject before) fun _ => rfl
  | function body bare =>
    exact assignable.of_kept (fun _ takes => takes) (namesOf_newFunction before body bare)
      fun _ => rfl
  | array cells writable => exact assignable.newArray writable
  | property owner name cell writable => exact assignable.property owner name writable
  | growth id size => exact assignable.growArray id size
  | element id position cell writable => exact assignable.element id position writable

theorem changes (assignable : before.Assignable) (changes : ReflTransGen Change before after) :
    after.Assignable := by
  induction changes with
  | refl => exact assignable
  | tail _ change inductionHypothesis => exact inductionHypothesis.change change

end Assignable

end Heap

namespace Machine

variable {machine before after : Machine}

/-! ### Acts -/

theorem assignable_of_acts (acts : ReflTransGen Act before after)
    (assignable : before.heap.Assignable) : after.heap.Assignable := by
  induction acts with
  | refl => exact assignable
  | tail _ act inductionHypothesis =>
    rcases act.change with same | change
    · rwa [same]
    · exact inductionHypothesis.change change

/-! ### Between runs -/

theorem assignable_new (limit : Int64) : (Machine.new limit).heap.Assignable := by
  constructor
  case names =>
    intro owner name cell found
    cases (held_new limit (.property owner name)).symm.trans found
  case elements =>
    intro id position cell found
    cases (held_new limit (.element id position)).symm.trans found

theorem assignable_defineNative (assignable : machine.heap.Assignable) (name : Text)
    (constructs : ConstructKind) (native : Native) :
    (machine.defineNative name constructs native).heap.Assignable :=
  (assignable.change (.function _ { name, native := some native, constructs } rfl)).change
    (.cell _ _)

theorem assignable_install (assignable : machine.heap.Assignable) :
    machine.install.heap.Assignable := by
  unfold Machine.install
  iterate 7 refine assignable_defineNative ?_ _ _ _
  exact ((assignable.change (.cell _ _)).change (.cell _ _)).change (.cell _ _)

/-! ### The machines that accepted programs lead to -/

/-- The machines that executions reach from a new one, at any move of them, if nothing is loaded but
accepted programs and instructions that are in memory, as those of a program that was loaded
before. -/
inductive Attained (limit : Int64) : Machine → Prop where
  | new : Attained limit (Machine.new limit).install
  | load {machine : Machine} (attained : Attained limit machine) {program : Program}
    (accepted : program.Accepted) : Attained limit (machine.load program)
  | loadPlaced {machine : Machine} (attained : Attained limit machine) {placement : Placement}
    (placed : placement.InMemory machine.heap) : Attained limit (machine.loadPlaced placement)
  | move {machine : Machine} (attained : Attained limit machine) (pending : List Activation) :
    Attained limit (leftBy (advance pending) machine)
  | finish {machine : Machine} (attained : Attained limit machine) :
    Attained limit { machine with current := machine.stop }
  | reset {machine : Machine} (attained : Attained limit machine) : Attained limit machine.reset
  | takeResult {machine : Machine} (attained : Attained limit machine) :
    Attained limit machine.takeResult.2

namespace Attained

variable {limit : Int64}

theorem reachable (attained : Attained limit machine) : Reachable limit machine := by
  induction attained with
  | new => exact .new
  | load _ _ inductionHypothesis => exact inductionHypothesis.loadProgram _
  | loadPlaced _ _ inductionHypothesis => exact inductionHypothesis.load _
  | move _ pending inductionHypothesis => exact inductionHypothesis.move pending
  | finish _ inductionHypothesis => exact inductionHypothesis.finish
  | reset _ inductionHypothesis => exact inductionHypothesis.reset
  | takeResult _ inductionHypothesis => exact inductionHypothesis.takeResult

theorem persists (limit : Int64) : Persists (Attained limit) where
  move _ pending attained := attained.move pending
  finish _ attained := attained.finish
  reset _ attained := attained.reset
  takeResult _ attained := attained.takeResult

theorem sound (attained : Attained limit machine) : machine.Sound := by
  induction attained with
  | new => exact (Sound.new limit).install
  | load _ accepted inductionHypothesis => exact inductionHypothesis.load accepted.complete
  | loadPlaced _ placed inductionHypothesis => exact { inductionHypothesis with code := placed }
  | @move machine _ pending inductionHypothesis =>
    by_cases overdrawn : Configuration.Overdrawn ⟨machine, pending⟩
    · obtain ⟨final, sound, ends⟩ := advance_of_overdrawn inductionHypothesis overdrawn
      rwa [leftBy_of_error ends]
    · have safe := safe_advance inductionHypothesis overdrawn
      cases ends : advance pending machine with
      | ok progress final =>
        rw [leftBy_of_ok ends]
        exact (safe.of_ok ends).1
      | error fault final =>
        rw [leftBy_of_error ends]
        exact (safe.of_error ends).1
  | finish _ inductionHypothesis => exact { inductionHypothesis with }
  | reset _ inductionHypothesis => exact inductionHypothesis.reset
  | takeResult _ inductionHypothesis => exact inductionHypothesis.takeResult.1

/-- On every machine that is `Attained`, all properties and elements are `Assignable`. -/
theorem assignable (attained : Attained limit machine) : machine.heap.Assignable := by
  induction attained with
  | new =>
    exact assignable_install (assignable_new limit)
  | @load machine _ program _ inductionHypothesis =>
    exact inductionHypothesis.changes (changes_allocateDeclarations program.items.toList _)
  | loadPlaced _ _ inductionHypothesis => exact inductionHypothesis
  | @move machine _ pending inductionHypothesis =>
    exact assignable_of_acts (acts_advance pending machine) inductionHypothesis
  | finish _ inductionHypothesis => exact inductionHypothesis
  | reset _ inductionHypothesis => exact inductionHypothesis
  | takeResult _ inductionHypothesis =>
    unfold Machine.takeResult
    split
    · exact inductionHypothesis
    · exact inductionHypothesis.change (.cell _ _)

end Attained

end Machine

namespace Host

variable {host : Host} {session : Session}

/-- The machine of every session that a host reaches by executing what is `Loadable` is
`Machine.Attained`, with whatever files it preloads. -/
theorem Executed.attained (executed : host.Executed session) :
    Machine.Attained host.settings.frameLimit session.machine := by
  induction executed with
  | new => exact .new
  | @execute session load _ loadable inductionHypothesis =>
    refine Session.holds_executeLoaded (Machine.Attained.persists _) _ _
      (fun program member _ attained => attained.load (host.accepted_preload member))
      (fun attained => ?_) inductionHypothesis
    cases loadable with
    | program accepted => exact attained.load accepted
    | placed placed => exact attained.loadPlaced (host.inMemory_prepare placed)

theorem Executed.foldl_execute (executed : host.Executed session) {programs : List Program}
    (accepted : ∀ program ∈ programs, program.Accepted) :
    host.Executed (programs.foldl (fun session program => (host.execute program session).1)
      session) := by
  induction programs generalizing session with
  | nil => exact executed
  | cons program rest inductionHypothesis =>
    obtain ⟨first, others⟩ := List.forall_mem_cons.mp accepted
    exact inductionHypothesis (.execute executed (.program first)) others

/-- Executing accepted programs one after another on a new session, with whatever files a host
preloads, leads to machines that are `Attained` only. -/
theorem attained_execute (host : Host) {programs : List Program}
    (accepted : ∀ program ∈ programs, program.Accepted) :
    Machine.Attained host.settings.frameLimit
      (programs.foldl (fun session program => (host.execute program session).1)
        host.newSession).machine :=
  (Executed.foldl_execute .new accepted).attained

end Host

end ScriptEngine
