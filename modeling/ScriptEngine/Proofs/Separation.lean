/-
This file proves that no two slots share a cell on any machine that executions reach. It goes
through what a host does with a machine between runs, and through whole executions, one program
after another. The instructions that write do so through the topmost operand; since that cell
is in one slot at most, no such write is seen through another one.
-/

import ScriptEngine.Proofs.Closed
import ScriptEngine.Proofs.Holding
import ScriptEngine.Runner.Host

namespace ScriptEngine

namespace Machine

/-! ### Between runs -/

/-- On a new machine no slot holds a cell. -/
theorem held_new (limit : Int64) (slot : Slot) : (Machine.new limit).held slot = none := by
  cases slot with
  | binding level name => cases level <;> rfl
  | property owner name =>
    cases owner with
    | object id =>
      have same : (Machine.new limit).heap.namesOf (.object id) = {} :=
        Heap.namesOf_newObject {} (.object id)
      change ((Machine.new limit).heap.namesOf (.object id)).get? name = none
      rw [same]
      rfl
    | null | undefined | number | text | array | function => rfl
  | element array position => rfl

namespace Separate

variable {machine : Machine}

theorem new (limit : Int64) : (Machine.new limit).Separate := by
  refine ⟨fun slot cell held => ?_, fun slot other cell held => ?_⟩
  · rw [held_new] at held
    cases held
  · rw [held_new] at held
    cases held

theorem defineCell (separate : machine.Separate) (name : Text) (cell : Cell) :
    (machine.defineCell name cell).Separate :=
  separate.named cell (machine.scopes.level_define name _)

theorem defineNative (separate : machine.Separate) (name : Text) (constructs : ConstructKind)
    (native : Native) : (machine.defineNative name constructs native).Separate :=
  (separate.change (.function _ { name, native := some native, constructs } rfl)).defineCell _ _

theorem install (separate : machine.Separate) : machine.install.Separate := by
  unfold Machine.install
  iterate 7 refine defineNative ?_ _ _ _
  iterate 3 refine defineCell ?_ _ _
  exact separate

theorem reset (separate : machine.Separate) : machine.reset.Separate := by
  cases usable : machine.attached with
  | true =>
    refine (separate.closeScopes machine.frames.size).of_same rfl ?_
    exact if_pos usable
  | false =>
    refine separate.of_same rfl (if_neg ?_)
    rw [usable]
    exact Bool.false_ne_true

theorem takeResult (separate : machine.Separate) : machine.takeResult.2.Separate := by
  unfold Machine.takeResult
  split
  · exact separate.of_same rfl rfl
  · exact separate.change (.cell _ _)

end Separate

theorem changes_allocateDeclarations (declarations : List Declaration) :
    Heap.Changes (allocateDeclarations declarations) := by
  unfold allocateDeclarations
  induction declarations with
  | nil => exact Heap.changes_pure []
  | cons declaration rest inductionHypothesis =>
    rw [List.mapM_cons]
    refine Heap.changes_bind (Heap.changes_bind ?_ fun _ => Heap.changes_allocateContent _)
      fun _ => Heap.changes_bind inductionHypothesis fun _ => Heap.changes_pure _
    exact fun heap => .single (.function heap _ rfl)

/-! ### What persists -/

/-- What holds of a machine goes on to hold, whatever a host does with it but load programs. -/
structure Persists (holds : Machine → Prop) : Prop where
  move : ∀ machine pending, holds machine → holds (leftBy (advance pending) machine)
  finish : ∀ machine, holds machine → holds { machine with current := machine.stop }
  reset : ∀ machine, holds machine → holds machine.reset
  takeResult : ∀ machine, holds machine → holds machine.takeResult.2

namespace Persists

variable {holds : Machine → Prop} {machine : Machine}

/-- What `Persists` holds of what a `loop` leaves, after however many moves. -/
theorem loop {View : Type} (persists : Persists holds) (observe : Machine → View → View)
    (fuel : Nat) (pending : List Activation) (view : View) (now : holds machine) :
    holds (Machine.loop observe fuel pending view machine).2.2 := by
  induction fuel generalizing pending view machine with
  | zero => exact now
  | succ fuel inductionHypothesis =>
    have moved := persists.move machine pending now
    rw [Machine.loop]
    cases advanced : advance pending machine with
    | ok progress after =>
      rw [leftBy_of_ok advanced] at moved
      cases progress with
      | running later => exact inductionHypothesis later _ moved
      | finished result => exact moved
    | error fault after =>
      rw [leftBy_of_error advanced] at moved
      exact moved

theorem run {View : Type} (persists : Persists holds) (observe : Machine → View → View)
    (fuel : Nat) (view : View) (now : holds machine) :
    holds (Machine.run observe fuel view machine).2.2 := by
  have looped := persists.loop observe fuel [] view now
  unfold Machine.run
  split
  · rename_i fault last final ends
    rw [ends] at looped
    split
    · exact persists.finish final looped
    · exact looped
  · exact looped

end Persists

/-! ### What stays in memory -/

section

variable {before after machine : Machine} {cell : CellId}

/-- What an `Act` does to memory is one elementary `Change` at most. -/
theorem Act.change (act : Act before after) :
    after.heap = before.heap ∨ Heap.Change before.heap after.heap := by
  cases act with
  | quiet quiet =>
    cases quiet with
    | memory heap change => exact .inr change
    | binding name cell => exact .inr (.cell before.heap cell)
    | operands | receivers | flags | accumulator | current | output => exact .inl rfl
  | frames | openScope | closeScope => exact .inl rfl

theorem has_of_acts (acts : Relation.ReflTransGen Act before after) (has : before.heap.Has cell) :
    after.heap.Has cell := by
  induction acts with
  | refl => exact has
  | tail _ act inductionHypothesis =>
    rcases act.change with same | change
    · rwa [same]
    · exact Nat.lt_of_lt_of_le inductionHypothesis change.size_le

/-- The cells that placed instructions refer to have been made. So it is from the time on that a
program was placed. -/
def Placement.InMemory (placement : Placement) (heap : Heap) : Prop :=
  ∀ instruction ∈ placement.code, ∀ cell, instruction.datum.object = some cell → heap.Has cell

/-- What was placed `InMemory` stays there: this `Persists`. -/
theorem persists_inMemory (placement : Placement) :
    Persists fun machine => placement.InMemory machine.heap where
  move machine pending placed instruction member cell refers :=
    has_of_acts (acts_advance pending machine) (placed instruction member cell refers)
  finish _ placed := placed
  reset _ placed := placed
  takeResult machine placed := by
    unfold Machine.takeResult
    split
    · exact placed
    · intro instruction member cell refers
      exact Nat.lt_of_lt_of_le (placed instruction member cell refers)
        (Heap.Change.cell _ _).size_le

theorem has_allocateDeclarations {heap : Heap} {cell : CellId} (declarations : List Declaration)
    (has : heap.Has cell) : (allocateDeclarations declarations heap).2.Has cell :=
  Nat.lt_of_lt_of_le has (Heap.size_le_of_changes (changes_allocateDeclarations declarations heap))

/-- Neither does loading a program take anything out of memory that was placed `InMemory`. -/
theorem inMemory_load {placement : Placement} (program : Program)
    (placed : placement.InMemory machine.heap) :
    placement.InMemory (machine.load program).heap :=
  fun instruction member cell refers =>
    has_allocateDeclarations program.items.toList (placed instruction member cell refers)

end

/-! ### The machines that executions reach -/

/-- The machines that are reached from a new one by executions, at any move of them. Programs are
placed in memory and loaded from there, as often as one likes. -/
inductive Reachable (limit : Int64) : Machine → Prop where
  | new : Reachable limit (Machine.new limit).install
  | place {machine : Machine} (reachable : Reachable limit machine) (program : Program) :
    Reachable limit
      { machine with heap := ((Placement.ofProgram program).run machine.heap).2 }
  | load {machine : Machine} (reachable : Reachable limit machine) (placement : Placement) :
    Reachable limit (machine.loadPlaced placement)
  | move {machine : Machine} (reachable : Reachable limit machine) (pending : List Activation) :
    Reachable limit (leftBy (advance pending) machine)
  | finish {machine : Machine} (reachable : Reachable limit machine) :
    Reachable limit { machine with current := machine.stop }
  | reset {machine : Machine} (reachable : Reachable limit machine) : Reachable limit machine.reset
  | takeResult {machine : Machine} (reachable : Reachable limit machine) :
    Reachable limit machine.takeResult.2

namespace Reachable

variable {limit : Int64} {machine : Machine}

theorem separate (reachable : Reachable limit machine) : machine.Separate := by
  induction reachable with
  | new => exact (Separate.new limit).install
  | place _ program inductionHypothesis =>
    exact inductionHypothesis.changes (changes_allocateDeclarations program.items.toList _)
  | load _ placement inductionHypothesis => exact inductionHypothesis.of_same rfl rfl
  | move _ pending inductionHypothesis => exact inductionHypothesis.advance pending
  | finish _ inductionHypothesis => exact inductionHypothesis.of_same rfl rfl
  | reset _ inductionHypothesis => exact inductionHypothesis.reset
  | takeResult _ inductionHypothesis => exact inductionHypothesis.takeResult

theorem loadProgram (reachable : Reachable limit machine) (program : Program) :
    Reachable limit (machine.load program) :=
  (reachable.place program).load _

theorem persists (limit : Int64) : Persists (Reachable limit) where
  move _ pending reachable := reachable.move pending
  finish _ reachable := reachable.finish
  reset _ reachable := reachable.reset
  takeResult _ reachable := reachable.takeResult

/-- A `loop` that starts on a `Reachable` machine leaves one, after however many moves. -/
theorem loop {View : Type} (observe : Machine → View → View) (fuel : Nat)
    (pending : List Activation) (view : View) (reachable : Reachable limit machine) :
    Reachable limit (Machine.loop observe fuel pending view machine).2.2 :=
  (persists limit).loop observe fuel pending view reachable

end Reachable

end Machine

namespace Session

variable {holds : Machine → Prop} {session : Session} {load : Machine → Machine}

/-! ### Executions -/

theorem holds_run (persists : Machine.Persists holds) (fuel : Nat)
    (loaded : holds (load session.machine)) : holds (run fuel load session).1.machine := by
  have ran := persists.run (observe session.traced) fuel session.trace loaded
  unfold run
  dsimp only
  split <;> exact ran

theorem holds_runPreload (persists : Machine.Persists holds) (fuel : Nat)
    {preload : List (Except LoadError Program)}
    (loads : ∀ program, .ok program ∈ preload → ∀ machine : Machine, holds machine →
      holds (machine.load program)) (now : holds session.machine) :
    holds (runPreload fuel preload session).1.machine := by
  induction preload generalizing session with
  | nil => exact now
  | cons loaded rest inductionHypothesis =>
    cases loaded with
    | error error => exact now
    | ok program =>
      have ran : holds (run fuel (·.load program) session).1.machine :=
        holds_run persists fuel (loads program (List.mem_cons_self ..) _ now)
      rw [runPreload]
      split
      · rename_i after stop ends
        rw [ends] at ran
        exact ran
      · rename_i after ends
        rw [ends] at ran
        exact inductionHypothesis
          (fun program member => loads program (List.mem_cons_of_mem _ member))
          (persists.reset _ ran)

theorem holds_stopped (persists : Machine.Persists holds) (tapOnFault : Bool) (reason : Stop)
    (now : holds session.machine) : holds (stopped tapOnFault session reason).1.machine := by
  cases reason with
  | error error =>
    have same : (tapFault tapOnFault session).machine = session.machine := by
      unfold tapFault
      split <;> rfl
    change holds (tapFault tapOnFault session).machine.reset
    rw [same]
    exact persists.reset _ now
  | broken breakdown => exact now
  | outOfFuel => exact now

theorem holds_prepare (persists : Machine.Persists holds) (fuel : Nat)
    {preload : List (Except LoadError Program)}
    (preloads : ∀ program, .ok program ∈ preload → ∀ machine : Machine, holds machine →
      holds (machine.load program)) (now : holds session.machine) :
    holds (session.prepare fuel preload).1.machine := by
  unfold prepare
  split
  · exact now
  · exact holds_runPreload persists fuel preloads now

/-- What `Persists` holds of what an execution leaves, if it goes on to hold with what is loaded. -/
theorem holds_executeLoaded (persists : Machine.Persists holds) (fuel : Nat) (tapOnFault : Bool)
    {preload : List (Except LoadError Program)}
    (preloads : ∀ program, .ok program ∈ preload → ∀ machine : Machine, holds machine →
      holds (machine.load program))
    (loads : holds (session.prepare fuel preload).1.machine →
      holds (load (session.prepare fuel preload).1.machine))
    (now : holds session.machine) :
    holds (executeLoaded fuel tapOnFault preload load session).1.machine := by
  have prepared := holds_prepare persists fuel preloads now
  have loaded := loads prepared
  unfold executeLoaded
  split
  · rename_i middle stop ends
    rw [ends] at prepared
    exact holds_stopped persists tapOnFault stop prepared
  · rename_i middle ends
    rw [ends] at loaded
    have ran : holds (run fuel load middle).1.machine := holds_run persists fuel loaded
    split
    · rename_i after stop ended
      rw [ended] at ran
      exact holds_stopped persists tapOnFault stop ran
    · rename_i after ended
      rw [ended] at ran
      exact persists.takeResult _ ran

end Session

/-! ### Executions of a host -/

namespace Host

variable {holds : Machine → Prop} {programs : List Program}

/-- What holds of a new machine, `Persists`, and goes on to hold with every program that is loaded
holds of the machine that executions of programs leave, one after another. -/
theorem holds_execute (host : Host) (persists : Machine.Persists holds)
    (new : holds (Machine.new host.settings.frameLimit).install)
    (preloads : ∀ program, .ok program ∈ host.settings.preload.map host.load →
      ∀ machine : Machine, holds machine → holds (machine.load program))
    (loads : ∀ program ∈ programs, ∀ machine : Machine, holds machine →
      holds (machine.load program)) :
    holds (programs.foldl (fun session program => (host.execute program session).1)
      host.newSession).machine := by
  suffices later : ∀ session : Session, holds session.machine →
      holds (programs.foldl (fun session program => (host.execute program session).1)
        session).machine from later _ new
  intro session now
  induction programs generalizing session with
  | nil => exact now
  | cons program rest inductionHypothesis =>
    have first := loads program (List.mem_cons_self ..)
    exact inductionHypothesis
      (fun program member => loads program (List.mem_cons_of_mem _ member)) _
      (Session.holds_executeLoaded persists _ _ preloads (first _) now)

/-- Executing programs one after another on a new session leads to machines that are `Reachable`
only. -/
theorem reachable_execute (host : Host) (programs : List Program) :
    Machine.Reachable host.settings.frameLimit
      (programs.foldl (fun session program => (host.execute program session).1)
        host.newSession).machine :=
  host.holds_execute (Machine.Reachable.persists _) .new
    (fun program _ _ reachable => reachable.loadProgram program)
    fun program _ _ reachable => reachable.loadProgram program

end Host

/-! ### Writing through a slot -/

namespace Machine

variable {Result : Type}

/-- One elementary change by an instruction that writes through a cell. -/
inductive Through (target : CellId) : Machine → Machine → Prop where
  | operands (machine : Machine) (operands : Array Operand) :
    Through target machine { machine with operands }
  | flags (machine : Machine) (flags : Flags) : Through target machine { machine with flags }
  | cell (machine : Machine) (cell : Cell) :
    Through target machine
      { machine with heap := { machine.heap with cells := machine.heap.cells.push cell } }
  | write (machine : Machine) (content : Content) :
    Through target machine
      { machine with heap := (Heap.setContent target content machine.heap).2 }

/-- No slot gets another cell `held`, and no cell changes but the one that is written through. -/
structure Confined (target : CellId) (before after : Machine) : Prop where
  held : ∀ slot, after.held slot = before.held slot
  size : before.heap.cells.size ≤ after.heap.cells.size
  cell : ∀ cell, cell ≠ target → cell.index < before.heap.cells.size →
    after.heap.cell cell = before.heap.cell cell

namespace Confined

variable {target : CellId} {before middle after : Machine}

theorem refl (machine : Machine) : Confined target machine machine :=
  ⟨fun _ => rfl, Nat.le_refl _, fun _ _ _ => rfl⟩

theorem trans (first : Confined target before middle) (second : Confined target middle after) :
    Confined target before after := by
  refine ⟨fun slot => (second.held slot).trans (first.held slot),
    Nat.le_trans first.size second.size, fun cell distinct within => ?_⟩
  exact (second.cell cell distinct (Nat.lt_of_lt_of_le within first.size)).trans
    (first.cell cell distinct within)

end Confined

theorem Through.confined {target : CellId} {before after : Machine}
    (through : Through target before after) : Confined target before after := by
  cases through with
  | operands | flags => exact ⟨fun _ => rfl, Nat.le_refl _, fun _ _ _ => rfl⟩
  | cell cell =>
    refine ⟨held_congr (fun _ => rfl) (fun owner => by cases owner <;> rfl) fun _ => rfl, ?_, ?_⟩
    · rw [Array.size_push]
      exact Nat.le_succ _
    · exact fun other _ within => Heap.cell_of_has within Array.append_singleton.symm
  | write content =>
    refine ⟨held_congr (fun _ => rfl) (fun owner => by cases owner <;> rfl) fun _ => rfl, ?_, ?_⟩
    · exact Nat.le_of_eq Array.size_setIfInBounds.symm
    · exact fun other distinct _ => Heap.cell_setContent_other distinct.symm content before.heap

theorem Leads.confined {target : CellId} {action : Action Result} {machine : Machine}
    (leads : Leads (Through target) action machine) :
    Confined target machine (leftBy action machine) := by
  unfold Leads at leads
  generalize leftBy action machine = final at leads ⊢
  induction leads with
  | refl => exact .refl machine
  | tail _ through inductionHypothesis => exact inductionHypothesis.trans through.confined

variable {target : CellId}

theorem through_top (machine : Machine) : Leads (Through target) top machine := by
  unfold Leads
  cases topmost : machine.operands.back? with
  | none => rw [leftBy_of_error (top_of_none topmost)]
  | some operand => rw [leftBy_of_ok (top_of_some topmost)]

theorem through_pop (machine : Machine) : Leads (Through target) pop machine :=
  .bind (through_top machine) fun operand middle _ =>
    .bind (.modify _ (.operands middle _)) fun _ _ _ => .pure operand

theorem through_push (operand : Operand) (machine : Machine) :
    Leads (Through target) (push operand) machine :=
  .modify _ (.operands machine _)

theorem through_setFlags (machine : Machine) : Leads (Through target) setFlags machine :=
  .bind (through_top machine) fun _ _ _ => .bind (.get (.pure _)) fun _ last _ =>
    .modify _ (.flags last _)

theorem through_pushContent (content : Content) (machine : Machine) :
    Leads (Through target) (pushContent content) machine :=
  .bind (.single (.cell machine { content })) fun _ middle _ => through_push _ middle

theorem through_setContent (content : Content) (machine : Machine) :
    Leads (Through target) (onHeap (Heap.setContent target content)) machine :=
  .single (.write machine content)

variable {operand : Operand} {machine : Machine}

/-- What begins by taking the topmost operand goes on with that operand, and `Leads` as far. -/
theorem Leads.pop_topmost {next : Operand → Action Result}
    (topmost : machine.operands.back? = some operand)
    (rest : ∀ middle, Leads (Through target) (next operand) middle) :
    Leads (Through target) (Machine.pop >>= next) machine := by
  refine .bind (through_pop machine) fun popped middle ends => ?_
  obtain ⟨same, _⟩ := pop_eq_ok.mp ends
  obtain rfl : operand = popped := Option.some.inj (topmost.symm.trans same)
  exact rest middle

theorem through_store (topmost : machine.operands.back? = some operand) :
    Leads (Through operand.cell) store machine := by
  refine .pop_topmost topmost fun middle => ?_
  have ending (last : Machine) :
      Leads (Through operand.cell) (do push operand; setFlags) last :=
    .bind (through_push operand last) fun _ final _ => through_setFlags final
  refine .bind (through_pop middle) fun source taken _ =>
    .bind (.get (.pure _)) fun content read _ => .get ?_
  dsimp only
  split
  · exact .bind (through_setContent content read) fun _ written _ => ending written
  · exact ending read

theorem through_increment (difference : Float) (topmost : machine.operands.back? = some operand) :
    Leads (Through operand.cell) (increment difference) machine := by
  refine .pop_topmost topmost fun middle => .get ?_
  dsimp only
  split
  · exact .bind (through_setContent _ middle) fun _ written _ =>
      .bind (through_push _ written) fun _ last _ => through_setFlags last
  · exact .bind (through_pushContent _ middle) fun _ last _ => through_setFlags last

theorem through_incrementAfter (difference : Float)
    (topmost : machine.operands.back? = some operand) :
    Leads (Through operand.cell) (incrementAfter difference) machine := by
  refine .pop_topmost topmost fun middle => .get ?_
  have ending (content : Content) (last : Machine) :
      Leads (Through operand.cell) (do pushContent content; setFlags) last :=
    .bind (through_pushContent content last) fun _ final _ => through_setFlags final
  dsimp only
  split
  · exact .bind (through_setContent _ middle) fun _ written _ => ending _ written
  · exact ending _ middle

/-- An instruction that writes does so `Through` its topmost operand. -/
theorem through_execute {instruction : Instruction CellId}
    (writes : instruction.opcode ∈ [.store, .inc, .dec, .pinc, .pdec])
    (topmost : machine.operands.back? = some operand) :
    Leads (Through operand.cell) (execute instruction) machine := by
  have plain : instruction.opcode ≠ .call := by
    rintro same
    rw [same] at writes
    simp at writes
  rw [execute_of_noCall plain]
  refine .bind ?_ fun _ _ _ => .pure _
  simp only [List.mem_cons, List.not_mem_nil, or_false] at writes
  unfold executePlain
  rcases writes with same | same | same | same | same
  · simp only [same]
    exact through_store topmost
  · simp only [same]
    exact through_increment 1 topmost
  · simp only [same]
    exact through_increment (-1) topmost
  · simp only [same]
    exact through_incrementAfter 1 topmost
  · simp only [same]
    exact through_incrementAfter (-1) topmost

/-- On every machine that executions reach, `Reachable`, a cell is `held` by one slot at most, and
an instruction that writes through the cell of one slot changes neither the cell of another slot nor
which cell that is. -/
theorem Reachable.slots_separate {limit : Int64} (reachable : Reachable limit machine) :
    (∀ slot other cell, machine.held slot = some cell → machine.held other = some cell →
      slot = other) ∧
    ∀ (instruction : Instruction CellId) (operand : Operand) (slot other : Slot),
      instruction.opcode ∈ [.store, .inc, .dec, .pinc, .pdec] →
      machine.operands.back? = some operand → machine.held slot = some operand.cell →
      other ≠ slot →
        (leftBy (execute instruction) machine).held other = machine.held other ∧
          ∀ cell, machine.held other = some cell →
            (leftBy (execute instruction) machine).heap.cell cell = machine.heap.cell cell := by
  have separate := reachable.separate
  refine ⟨separate.single, fun instruction operand slot other writes topmost held apart => ?_⟩
  have confined := (through_execute writes topmost).confined
  refine ⟨confined.held other, fun cell found => confined.cell cell ?_ (separate.made _ _ found)⟩
  rintro rfl
  exact apart (separate.single other slot operand.cell found held)

/-- A program that declares two names and writes through the first. -/
def writingProgram : Program where
  code := #[{ opcode := .news, datum := { kind := .name, text := "first" } },
    { opcode := .news, datum := { kind := .name, text := "second" } }, { opcode := .push },
    { opcode := .fetch, datum := { kind := .name, text := "first" } }, { opcode := .pushim },
    { opcode := .store }]
  stop := 6

/-- A machine that is about to write. -/
def writingMachine : Machine :=
  (loop (fun _ view => view) 5 [] () ((new 0).install.load writingProgram)).2.2

theorem slots_separate_sample :
    (leftBy (execute { opcode := .store }) writingMachine).heap.content ⟨11⟩ = .null ∧
      (leftBy (execute { opcode := .store }) writingMachine).heap.cell ⟨12⟩ =
        writingMachine.heap.cell ⟨12⟩ := by
  have reachable : Reachable 0 writingMachine :=
    (Reachable.new.loadProgram writingProgram).loop (fun _ view => view) 5 [] ()
  have unchanged := (reachable.slots_separate.2 { opcode := .store } { cell := ⟨11⟩ }
    (.binding 0 "first") (.binding 0 "second") (by decide) (by decide +kernel)
    (by decide +kernel) (by decide)).2 ⟨12⟩ (by decide +kernel)
  exact ⟨by decide +kernel, unchanged⟩

end Machine

end ScriptEngine
