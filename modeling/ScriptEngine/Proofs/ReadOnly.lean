/-
This file proves that a read-only cell never changes again. The instructions that write through the
topmost operand ask first whether its cell takes another value, and everything else that works on
memory makes cells and leaves those that there are. So from any point of a run on, however it got
there and whatever it does next, each cell that is read-only keeps its content and its mark.
-/

import ScriptEngine.Proofs.Sparing
import ScriptEngine.Runner.Host

namespace ScriptEngine

/-! ### Where read-only cells come from -/

/-- A content refers to an object, an array or a function. -/
def Content.isReference : Content → Bool
  | .object _ | .array _ | .function _ => true
  | .null | .undefined | .number _ | .text _ => false

namespace Heap

/-- A cell that is read-only has been made. -/
theorem has_of_readOnly {heap : Heap} {cell : CellId}
    (marked : (heap.cell cell).readOnly = true) : heap.Has cell := by
  refine Nat.lt_of_not_le fun missing => ?_
  unfold Heap.cell at marked
  rw [Array.getD_eq_getD_getElem?, Array.getElem?_eq_none missing] at marked
  exact Bool.false_ne_true marked

theorem cell_allocate (made : Cell) (heap : Heap) :
    (allocate made heap).2.cell (allocate made heap).1 = made := by
  change (heap.cells.push made).getD heap.cells.size {} = made
  rw [Array.getD_eq_getD_getElem?, Array.getElem?_push_size]
  rfl

end Heap

namespace Machine

/-! ### Read-only cells are kept -/

/-- Every cell that is read-only is so afterwards and holds what it has held. -/
def KeepsReadOnly (before after : Machine) : Prop :=
  ∀ cell, (before.heap.cell cell).readOnly = true → after.heap.cell cell = before.heap.cell cell

theorem KeepsReadOnly.trans {before middle after : Machine} (first : before.KeepsReadOnly middle)
    (second : middle.KeepsReadOnly after) : before.KeepsReadOnly after := by
  intro cell marked
  have kept := first cell marked
  rw [← kept] at marked ⊢
  exact second cell marked

/-- What is `Sparing` every cell that is read-only `KeepsReadOnly`. -/
theorem keepsReadOnly_of_sparing {before after : Machine}
    (spares : ∀ cell, (before.heap.cell cell).readOnly = true → Sparing cell before after) :
    before.KeepsReadOnly after :=
  fun cell marked => (spares cell marked (Heap.has_of_readOnly marked)).2

theorem KeepsReadOnly.of_same {before after : Machine} (same : after.heap = before.heap) :
    before.KeepsReadOnly after :=
  keepsReadOnly_of_sparing fun _ _ => .of_same same

/-- What `Leads` from a machine to another one while it spares every cell `KeepsReadOnly`. -/
theorem keepsReadOnly_of_leads {Result : Type} {action : Action Result} {machine : Machine}
    (leads : ∀ cell, Leads (Sparing cell) action machine) :
    machine.KeepsReadOnly (leftBy action machine) :=
  keepsReadOnly_of_sparing fun cell _ => (leads cell).sparing

end Machine

namespace Configuration

open Machine

/-- A move writes into no cell that is read-only: what is `written?` is writable. -/
theorem writable_of_written? {configuration : Configuration} {cell : CellId}
    (written : configuration.written? = some cell) :
    configuration.machine.heap.writable cell = true := by
  unfold Configuration.written? at written
  split at written
  · obtain ⟨instruction, _, targeted⟩ := Option.bind_eq_some_iff.mp written
    unfold Machine.written? at targeted
    split at targeted
    · unfold target? at targeted
      split at targeted
      · exact (Option.filter_eq_some_iff.mp targeted).2
      · cases targeted
    · cases targeted
  · cases written

/-- One move, `advance`, `KeepsReadOnly`, whether the run goes on, ends or fails with it. -/
theorem keepsReadOnly_advance (configuration : Configuration) :
    configuration.machine.KeepsReadOnly
      (leftBy (advance configuration.pending) configuration.machine) := by
  refine keepsReadOnly_of_sparing fun cell marked => sparing_advance fun written => ?_
  have writable := writable_of_written? written
  unfold Heap.writable at writable
  rw [marked] at writable
  exact Bool.false_ne_true writable

/-! ### The points of a run -/

/-- The machines that a run passes through in so many moves; the last of them is the one that it
leaves. -/
def points : (fuel : Nat) → Configuration → List Machine
  | 0, configuration => [configuration.machine]
  | fuel + 1, configuration =>
    configuration.machine ::
      match advance configuration.pending configuration.machine with
      | .ok (.running pending) machine => points fuel ⟨machine, pending⟩
      | .ok (.finished _) machine | .error _ machine => [machine]

/-- A run leaves the last of its `points`. -/
theorem getLast?_points {View : Type} (observe : Machine → View → View) (fuel : Nat)
    (view : View) (configuration : Configuration) :
    (configuration.points fuel).getLast? =
      some (loop observe fuel configuration.pending view configuration.machine).2.2 := by
  induction fuel generalizing view configuration with
  | zero => rfl
  | succ fuel inductionHypothesis =>
    rw [points, loop]
    cases advance configuration.pending configuration.machine with
    | ok progress after =>
      cases progress with
      | running later =>
        dsimp only
        rw [List.getLast?_cons, inductionHypothesis _ ⟨after, later⟩]
        rfl
      | finished result => rfl
    | error fault after => rfl

/-- At every one of the `points` of a run each cell is kept that has been read-only at its start. -/
theorem keepsReadOnly_of_mem_points {fuel : Nat} {configuration : Configuration} {point : Machine}
    (member : point ∈ configuration.points fuel) : configuration.machine.KeepsReadOnly point := by
  induction fuel generalizing configuration with
  | zero =>
    rw [List.mem_singleton.mp member]
    exact .of_same rfl
  | succ fuel inductionHypothesis =>
    have moved := configuration.keepsReadOnly_advance
    rw [points] at member
    obtain rfl | later := List.mem_cons.mp member
    · exact .of_same rfl
    unfold leftBy at moved
    split at later
    · rename_i pending machine ends
      rw [ends] at moved
      exact moved.trans (inductionHypothesis later)
    · rename_i result machine ends
      rw [ends] at moved
      rwa [List.mem_singleton.mp later]
    · rename_i fault machine ends
      rw [ends] at moved
      rwa [List.mem_singleton.mp later]

/-- From each of the `points` of a run to every later one, read-only cells are kept. -/
theorem pairwise_points (fuel : Nat) (configuration : Configuration) :
    (configuration.points fuel).Pairwise KeepsReadOnly := by
  induction fuel generalizing configuration with
  | zero => exact List.pairwise_singleton _ _
  | succ fuel inductionHypothesis =>
    have start : ∀ point ∈ configuration.points (fuel + 1),
        configuration.machine.KeepsReadOnly point := fun _ => keepsReadOnly_of_mem_points
    rw [points] at start ⊢
    refine List.pairwise_cons.mpr
      ⟨fun point later => start point (List.mem_cons_of_mem _ later), ?_⟩
    split
    · exact inductionHypothesis _
    · exact List.pairwise_singleton _ _
    · exact List.pairwise_singleton _ _

end Configuration

namespace Machine

/-! ### Whole runs -/

section Runs

variable {View : Type} (observe : Machine → View → View) (fuel : Nat) (view : View)
  (machine : Machine)

/-- A `run` keeps the read-only cells of every one of its `points`, also where a run that has
reached its end inside a function counts as over. -/
theorem keepsReadOnly_run {point : Machine}
    (member : point ∈ (Configuration.mk machine []).points fuel) :
    point.KeepsReadOnly (run observe fuel view machine).2.2 := by
  have last := Configuration.getLast?_points observe fuel view ⟨machine, []⟩
  obtain ⟨before, split⟩ := List.getLast?_eq_some_iff.mp last
  have pairwise := Configuration.pairwise_points fuel ⟨machine, []⟩
  have looped : point.KeepsReadOnly (loop observe fuel [] view machine).2.2 := by
    rw [split] at pairwise member
    obtain earlier | final := List.mem_append.mp member
    · exact (List.pairwise_append.mp pairwise).2.2 point earlier _ (List.mem_singleton_self _)
    · exact .of_same (congrArg Machine.heap (List.mem_singleton.mp final).symm)
  unfold run
  split
  · rename_i fault left final ends
    rw [ends] at looped
    split
    · exact looped.trans (.of_same rfl)
    · exact looped
  · exact looped

theorem sparing_startInvoke {cell : CellId} (callee : CellId) (receiver? : Option CellId)
    (arguments : List CellId) (machine : Machine) :
    Leads (Sparing cell) (startInvoke callee receiver? arguments) machine := by
  have entering (function : FunctionId) (receiver? : Option CellId) (passed : List CellId)
      (middle : Machine) : Leads (Sparing cell)
        (activate function receiver? passed .host >>= fun made => pure (Progress.running [made]))
        middle :=
    .bind (sparing_activate function receiver? passed _ middle) fun _ _ _ => .pure _
  refine .bind (sparing_prepared callee machine) fun function ready _ => .get ?_
  split
  · refine .bind (sparing_callHost _ receiver? arguments ready) fun call middle _ => ?_
    cases call with
    | value result => exact .pure _
    | enter function receiver? passed => exact entering function receiver? passed middle
  · refine .bind (.pure _) fun call middle same => ?_
    cases same
    exact entering function receiver? arguments _

/-- The machines that a call from the host passes through. -/
def invokePoints (callee : CellId) (receiver? : Option CellId) (arguments : List CellId) :
    List Machine :=
  machine ::
    match startInvoke callee receiver? arguments machine with
    | .ok (.running pending) machine => (Configuration.mk machine pending).points fuel
    | .ok (.finished _) machine | .error _ machine => [machine]

theorem getLast?_invokePoints (callee : CellId) (receiver? : Option CellId)
    (arguments : List CellId) :
    (invokePoints fuel machine callee receiver? arguments).getLast? =
      some (invoke observe fuel callee receiver? arguments view machine).2.2 := by
  unfold invokePoints invoke
  cases startInvoke callee receiver? arguments machine with
  | ok progress after =>
    cases progress with
    | running pending =>
      dsimp only
      rw [List.getLast?_cons, Configuration.getLast?_points observe fuel view ⟨after, pending⟩]
      rfl
    | finished result => rfl
  | error fault after => rfl

theorem pairwise_invokePoints (callee : CellId) (receiver? : Option CellId)
    (arguments : List CellId) :
    (invokePoints fuel machine callee receiver? arguments).Pairwise KeepsReadOnly := by
  have started : machine.KeepsReadOnly
      (leftBy (startInvoke callee receiver? arguments) machine) :=
    keepsReadOnly_of_leads fun _ => sparing_startInvoke callee receiver? arguments machine
  unfold leftBy at started
  unfold invokePoints
  cases begins : startInvoke callee receiver? arguments machine with
  | ok progress after =>
    rw [begins] at started
    cases progress with
    | running pending =>
      exact List.pairwise_cons.mpr ⟨fun point member =>
        started.trans (Configuration.keepsReadOnly_of_mem_points member),
        Configuration.pairwise_points fuel ⟨after, pending⟩⟩
    | finished result => exact List.pairwise_pair.mpr started
  | error fault after =>
    rw [begins] at started
    exact List.pairwise_pair.mpr started

end Runs

/-! ### Between runs -/

theorem appends_allocateDeclarations (declarations : List Declaration) :
    Heap.Appends (allocateDeclarations declarations) := by
  induction declarations with
  | nil => exact Heap.appends_pure []
  | cons declaration rest inductionHypothesis =>
    unfold allocateDeclarations at inductionHypothesis ⊢
    rw [List.mapM_cons]
    have made : Heap.Appends (Heap.allocateFunction
        { name := declaration.name, params := declaration.params, entry := declaration.entry,
          constructs := declaration.constructs }) :=
      Heap.appends_bind (Heap.appends_of_same fun _ => rfl) fun _ => Heap.appends_allocateContent _
    exact Heap.appends_bind made fun _ => Heap.appends_bind inductionHypothesis fun _ =>
      Heap.appends_pure _

/-- Loading a program `KeepsReadOnly`: it makes cells for its functions and changes none that are
there. -/
theorem keepsReadOnly_load (machine : Machine) (program : Program) :
    machine.KeepsReadOnly (machine.load program) := by
  have made : machine.KeepsReadOnly
      (leftBy (onHeap (allocateDeclarations program.items.toList)) machine) :=
    keepsReadOnly_of_leads fun _ => sparing_onHeap (appends_allocateDeclarations _)
  exact made.trans (.of_same rfl)

theorem keepsReadOnly_takeResult (machine : Machine) :
    machine.KeepsReadOnly machine.takeResult.2 := by
  unfold takeResult
  split
  · exact .of_same rfl
  · have made : machine.KeepsReadOnly
        (leftBy (onHeap (Heap.allocateContent .undefined)) machine) :=
      keepsReadOnly_of_leads fun _ => sparing_onHeap (Heap.appends_allocateContent .undefined)
    exact made

end Machine

/-! ### Executions -/

namespace Session

open Machine

theorem keepsReadOnly_run (fuel : Nat) (program : Program) (session : Session) :
    session.machine.KeepsReadOnly (session.run fuel (·.load program)).1.machine := by
  have loaded := keepsReadOnly_load session.machine program
  have start : session.machine.load program ∈
      (Configuration.mk (session.machine.load program) []).points fuel := by
    cases fuel with
    | zero => exact List.mem_singleton_self _
    | succ fuel => exact List.mem_cons_self
  have ran := Machine.keepsReadOnly_run (observe session.traced) fuel session.trace _ start
  have left : (session.run fuel (·.load program)).1.machine =
      (Machine.run (observe session.traced) fuel session.trace
        (session.machine.load program)).2.2 := by
    unfold run
    dsimp only
    split <;> rfl
  rw [left]
  exact loaded.trans ran

theorem keepsReadOnly_runPreload (fuel : Nat) (preload : List (Except LoadError Program))
    (session : Session) :
    session.machine.KeepsReadOnly (runPreload fuel preload session).1.machine := by
  induction preload generalizing session with
  | nil => exact .of_same rfl
  | cons loaded rest inductionHypothesis =>
    cases loaded with
    | error error => exact .of_same rfl
    | ok program =>
      have ran := keepsReadOnly_run fuel program session
      rw [runPreload]
      rcases ends : run fuel (·.load program) session with ⟨after, _ | stop⟩
      · rw [ends] at ran
        have reset : after.machine.KeepsReadOnly after.machine.reset := .of_same rfl
        exact (ran.trans reset).trans (inductionHypothesis { after with machine := _ })
      · rw [ends] at ran
        exact ran

theorem keepsReadOnly_stopped (tapOnFault : Bool) (session : Session) (stop : Stop) :
    session.machine.KeepsReadOnly (stopped tapOnFault session stop).1.machine := by
  cases stop with
  | broken breakdown => exact .of_same rfl
  | outOfFuel => exact .of_same rfl
  | error error =>
    have same : (tapFault tapOnFault session).machine = session.machine := by
      unfold tapFault
      split <;> rfl
    change session.machine.KeepsReadOnly (tapFault tapOnFault session).machine.reset
    rw [same]
    exact .of_same rfl

/-- An execution `KeepsReadOnly`, with everything that belongs to it: the preload programs, the
program itself, resetting the machine and taking the result off it. -/
theorem keepsReadOnly_executeLoaded (fuel : Nat) (tapOnFault : Bool)
    (preload : List (Except LoadError Program)) (program : Program) (session : Session) :
    session.machine.KeepsReadOnly
      (session.executeLoaded fuel tapOnFault preload (·.load program)).1.machine := by
  have prepared : session.machine.KeepsReadOnly (session.prepare fuel preload).1.machine := by
    unfold prepare
    split
    · exact .of_same rfl
    · exact keepsReadOnly_runPreload fuel preload { session with preloaded := true }
  unfold executeLoaded
  generalize session.prepare fuel preload = reached at prepared ⊢
  obtain ⟨ready, _ | stop⟩ := reached
  · have ran := prepared.trans (keepsReadOnly_run fuel program ready)
    dsimp only
    generalize run fuel (·.load program) ready = ended at ran ⊢
    obtain ⟨after, _ | stop⟩ := ended
    · exact ran.trans (keepsReadOnly_takeResult after.machine)
    · exact ran.trans (keepsReadOnly_stopped tapOnFault after stop)
  · exact prepared.trans (keepsReadOnly_stopped tapOnFault ready stop)

end Session

namespace Machine

/-- Read-only cells never change. However a run gets on and ends, of any two of its `points` the
earlier `KeepsReadOnly` to the later: each cell that is read-only at the one has the same content
and mark at the other, up to the machine that the run leaves; and so it is with the `invokePoints`
of calls from the host and over whole executions, `Host.execute`. -/
theorem readOnly_cells_kept {View : Type} (observe : Machine → View → View) (fuel : Nat)
    (view : View) (machine : Machine) :
    (∀ pending,
      let points := (Configuration.mk machine pending).points fuel
      points.Pairwise KeepsReadOnly ∧
        points.getLast? = some (loop observe fuel pending view machine).2.2) ∧
      (∀ point ∈ (Configuration.mk machine []).points fuel,
        point.KeepsReadOnly (run observe fuel view machine).2.2) ∧
      (∀ callee receiver? arguments,
        let points := invokePoints fuel machine callee receiver? arguments
        points.Pairwise KeepsReadOnly ∧
          points.getLast? =
            some (invoke observe fuel callee receiver? arguments view machine).2.2) ∧
      ∀ (host : Host) (program : Program) (session : Session),
        machine.KeepsReadOnly (host.execute program { session with machine }).1.machine := by
  refine ⟨fun pending => ⟨?_, ?_⟩, fun point member => ?_,
    fun callee receiver? arguments => ⟨?_, ?_⟩, ?_⟩
  · exact Configuration.pairwise_points fuel ⟨machine, pending⟩
  · exact Configuration.getLast?_points observe fuel view ⟨machine, pending⟩
  · exact keepsReadOnly_run observe fuel view machine member
  · exact pairwise_invokePoints fuel machine callee receiver? arguments
  · exact getLast?_invokePoints observe fuel view machine callee receiver? arguments
  · intro host program session
    exact Session.keepsReadOnly_executeLoaded _ _ _ program { session with machine }

/-- A program that stores into the name `undefined` and counts up the length of a text. -/
def assigningProgram : Program where
  code := #[{ opcode := .push, datum := .ofNumber (Number.ofNat 5) },
    { opcode := .fetch, datum := .ofName "undefined" }, { opcode := .pushim }, { opcode := .store },
    { opcode := .push, datum := .ofText "abc" }, { opcode := .replprop, datum := .ofName "length" },
    { opcode := .inc }]
  stop := 7

/-- The machine on which that program is loaded. -/
def assigningStart : Machine :=
  (new 0).install.load assigningProgram

/-- The points of its run. -/
def assigningPoints : List Machine :=
  (Configuration.mk assigningStart []).points 10

theorem readOnly_cells_kept_assigning :
    let counting := assigningPoints.getD 6 assigningStart
    let final := (run (fun _ view => view) 10 () assigningStart).2.2
    assigningStart.heap.cell ⟨1⟩ = { content := .undefined, readOnly := true } ∧
      counting.heap.cell ⟨13⟩ = { content := .number (Number.ofNat 3), readOnly := true } ∧
      final.heap.cell ⟨1⟩ = assigningStart.heap.cell ⟨1⟩ ∧
      final.heap.cell ⟨13⟩ = counting.heap.cell ⟨13⟩ ∧
      final.operands.map Operand.cell = #[⟨1⟩, ⟨14⟩] ∧
      final.heap.content ⟨14⟩ = .number (Number.ofNat 4) := by
  obtain ⟨_, kept, _⟩ := readOnly_cells_kept (fun _ view => view) 10 () assigningStart
  have inside : 6 < assigningPoints.length := by decide +kernel
  have first : assigningStart ∈ assigningPoints := List.mem_cons_self
  have counting : assigningPoints.getD 6 assigningStart ∈ assigningPoints := by
    rw [List.getD_eq_getElem?_getD, List.getElem?_eq_getElem inside]
    exact List.getElem_mem inside
  refine ⟨by decide +kernel, by decide +kernel, ?_, ?_, by decide +kernel, by decide +kernel⟩
  · exact kept _ first ⟨1⟩ (by decide +kernel)
  · exact kept _ counting ⟨13⟩ (by decide +kernel)

end Machine

end ScriptEngine
