/-
This file proves what running a program does to the program. Its instructions and its bounds stay as
they are, and so does every function but for its properties. An operand that is a function refers to
a cell, and pushing it pushes that very cell, so the instructions that write through the topmost
operand can write over it. As long as no move of the run does that, the operand still holds the
function that the program declares, and pushes what it has pushed before.
-/

import ScriptEngine.Proofs.ControlTransfer
import ScriptEngine.Proofs.Sparing

namespace ScriptEngine

open Relation

/-! ### The cells that a run writes into -/

namespace Configuration

open Machine

/-- The cells that a run writes into in so many moves. -/
def written : (fuel : Nat) → Configuration → List CellId
  | 0, _ => []
  | fuel + 1, configuration =>
    configuration.written?.toList ++
      match configuration.next? with
      | some next => written fuel next
      | none => []

theorem written?_ne_of_not_mem {fuel : Nat} {configuration : Configuration} {cell : CellId}
    (spared : cell ∉ configuration.written (fuel + 1)) : configuration.written? ≠ some cell := by
  intro written
  refine spared (List.mem_append_left _ ?_)
  rw [written]
  exact List.mem_singleton.mpr rfl

theorem not_mem_written_of_moves {fuel : Nat} {before after : Configuration} {cell : CellId}
    (moves : before.Moves after) (spared : cell ∉ before.written (fuel + 1)) :
    cell ∉ after.written fuel := by
  intro later
  refine spared (List.mem_append_right _ ?_)
  have next : before.next? = some after := by
    unfold next?
    rw [moves]
  rw [next]
  exact later

end Configuration

namespace Machine

open ScriptEngine.Configuration

variable {View : Type} {cell : CellId} {machine : Machine}

/-- A `loop` is `Sparing` every cell that it does not write into, however it ends. -/
theorem sparing_loop (observe : Machine → View → View) {fuel : Nat} {pending : List Activation}
    (view : View) (spared : cell ∉ Configuration.written fuel ⟨machine, pending⟩) :
    Sparing cell machine (loop observe fuel pending view machine).2.2 := by
  induction fuel generalizing pending view machine with
  | zero => exact .of_same rfl
  | succ fuel inductionHypothesis =>
    have moved := sparing_advance (written?_ne_of_not_mem spared)
    rw [loop]
    cases advanced : advance pending machine with
    | ok progress after =>
      rw [leftBy_of_ok (by exact advanced)] at moved
      cases progress with
      | running later =>
        have moves : Moves ⟨machine, pending⟩ ⟨after, later⟩ := advanced
        exact moved.trans (inductionHypothesis _ (not_mem_written_of_moves moves spared))
      | finished result => exact moved
    | error fault after =>
      rw [leftBy_of_error (by exact advanced)] at moved
      exact moved

theorem sparing_run (observe : Machine → View → View) {fuel : Nat} (view : View)
    (spared : cell ∉ Configuration.written fuel ⟨machine, []⟩) :
    Sparing cell machine (run observe fuel view machine).2.2 := by
  have looped := sparing_loop observe view spared
  unfold run
  split
  · rename_i fault last final ends
    rw [ends] at looped
    split
    · exact looped.trans (.of_same rfl)
    · exact looped
  · exact looped

/-! ### What an operand pushes -/

/-- The content that pushing an operand pushes, if the operand can be pushed. -/
def pushedBy (machine : Machine) (datum : Datum CellId) : Option Content :=
  match literal datum machine with
  | .ok cell after => some (after.heap.content cell)
  | .error _ _ => none

theorem pushedBy_of_allocate {datum : Datum CellId} {content : Content} (machine : Machine)
    (isFresh : literal datum = onHeap (Heap.allocateContent content)) :
    machine.pushedBy datum = some content := by
  have made : (machine.heap.cells.push { content })[machine.heap.cells.size]? =
      some { content } := Array.getElem?_push_size
  unfold pushedBy
  rw [isFresh]
  change some ((machine.heap.cells.push { content }).getD machine.heap.cells.size {}).content = _
  rw [Array.getD_eq_getD_getElem?, made]
  rfl

/-- An operand that refers to no cell pushes what it says itself. -/
theorem pushedBy_eq (machine : Machine) (datum : Datum CellId) :
    machine.pushedBy datum =
      match datum.kind with
      | .null => some .null
      | .number => some (.number datum.number)
      | .text => some (.text datum.text)
      | .bool => some (.ofBool datum.bool)
      | .object => datum.object.map machine.heap.content
      | .name | .unknown _ => none := by
  obtain ⟨kind, number, text, bool, object⟩ := datum
  cases kind with
  | null | number | text | bool => exact machine.pushedBy_of_allocate rfl
  | object => cases object <;> rfl
  | name | unknown => rfl

/-- An operand pushes the same, `pushedBy`, as long as the cell that it refers to holds the same. -/
theorem pushedBy_congr {later : Machine} {datum : Datum CellId}
    (same : ∀ cell, datum.object = some cell →
      later.heap.content cell = machine.heap.content cell) :
    later.pushedBy datum = machine.pushedBy datum := by
  have referred : datum.object.map later.heap.content = datum.object.map machine.heap.content :=
    Option.map_congr same
  rw [pushedBy_eq, pushedBy_eq, referred]

/-! ### A program and its runs -/

theorem embedded_of_holdsFunction {heap : Heap} {declaration : Declaration} {properties : Table}
    (holds : heap.HoldsFunction cell { declaration.body with properties }) :
    embedded heap cell = .script declaration := by
  obtain ⟨function, present, found⟩ := holds
  have content : heap.content cell = .function function := by
    unfold Heap.content Heap.cell
    rw [Array.getD_eq_getD_getElem?, present]
    rfl
  have body : heap.function function = { declaration.body with properties } := by
    unfold Heap.function
    rw [Array.getD_eq_getD_getElem?, found]
    rfl
  unfold embedded
  rw [content]
  dsimp only
  rw [body]
  rfl

/-- A change that is `Sparing` a cell while functions are kept leaves it with the function that it
has held, `HoldsFunction`. -/
theorem Sparing.holdsFunction {before after : Machine} {body : FunctionBody}
    (spares : Sparing cell before after) (keeps : before.heap.KeepsFunctions after.heap)
    (holds : before.heap.HoldsFunction cell body) :
    ∃ properties, after.heap.HoldsFunction cell { body with properties } := by
  obtain ⟨function, present, found⟩ := holds
  obtain ⟨has, same⟩ := spares (Array.getElem?_eq_some_iff.mp present).1
  obtain ⟨properties, kept⟩ := keeps _ body found
  refine ⟨properties, function, ?_, kept⟩
  unfold Heap.cell at same
  rw [Array.getD_eq_getD_getElem?, Array.getD_eq_getD_getElem?, present,
    Array.getElem?_eq_getElem has] at same
  rw [Array.getElem?_eq_getElem has]
  exact congrArg some same

/-- A run of a program leaves its instructions and bounds as they are, and `Heap.KeepsFunctions`:
every function is as it was but for its properties. An instruction whose own cell, `itemCell`, is
not among the cells `Configuration.written` by the run still refers to the function that the program
declares for it, and pushes the same as before, `pushedBy`; this holds on every machine and however
the run ends. -/
theorem program_after_run (observe : Machine → View → View) (fuel : Nat) (view : View)
    (machine : Machine) {program : Program} (complete : program.Complete) :
    let loaded := machine.load program
    let final := (run observe fuel view loaded).2.2
    final.code = program.code.map (fun instruction =>
        instruction.map (machine.itemCell program)) ∧
      final.start = program.start ∧ final.stop = program.stop ∧
      loaded.heap.KeepsFunctions final.heap ∧
      ∀ instruction ∈ program.code,
        (∀ index, instruction.datum.object = some index →
          machine.itemCell program index ∉ Configuration.written fuel ⟨loaded, []⟩) →
        (∀ index, instruction.datum.object = some index →
          program.items[index]?.map Embedded.script =
            some (embedded final.heap (machine.itemCell program index))) ∧
          final.pushedBy (instruction.datum.map (machine.itemCell program)) =
            loaded.pushedBy (instruction.datum.map (machine.itemCell program)) := by
  intro loaded final
  have acts := acts_run observe fuel view loaded
  have setting := setting_of_acts acts
  have keeps := keepsFunctions_of_acts acts
  refine ⟨congrArg Setting.code setting, congrArg Setting.start setting,
    congrArg Setting.stop setting, keeps, fun instruction member spared => ⟨?_, ?_⟩⟩
  · intro index refers
    have item := Array.getElem?_eq_getElem (complete instruction member index refers)
    have spares := sparing_run observe view (spared index refers)
    obtain ⟨_, holds⟩ := spares.holdsFunction keeps (holdsFunction_itemCell machine item)
    rw [item, Option.map_some, embedded_of_holdsFunction holds]
  · refine pushedBy_congr fun cell refers => ?_
    obtain ⟨index, isIndex, rfl⟩ := Option.map_eq_some_iff.mp refers
    have item := Array.getElem?_eq_getElem (complete instruction member index isIndex)
    obtain ⟨_, present, _⟩ := holdsFunction_itemCell machine item
    have spares := sparing_run observe view (spared index isIndex)
    exact congrArg Cell.content (spares (Array.getElem?_eq_some_iff.mp present).1).2

/-- A program that puts its function into a variable and then adds to the variable. -/
def copyingProgram : Program where
  code := #[{ opcode := .news, datum := .ofName "x" },
    { opcode := .push, datum := .ofObject (some 0) },
    { opcode := .fetch, datum := .ofName "x" }, { opcode := .pushim }, { opcode := .store },
    { opcode := .inc }, { opcode := .leave }, { opcode := .ret }]
  items := #[{ name := "f", entry := 7 }]
  stop := 8

/-- The machine on which a program is loaded, with nothing but the installed names. -/
def loadedWith (program : Program) : Machine :=
  (new 0).install.load program

/-- The machine that a run of a program leaves there. -/
def leftWith (program : Program) : Machine :=
  (run (fun _ view => view) 10 () (loadedWith program)).2.2

theorem program_after_run_copying :
    Configuration.written 10 ⟨loadedWith copyingProgram, []⟩ = [⟨12⟩, ⟨12⟩] ∧
      (leftWith copyingProgram).pushedBy (.ofObject (some ⟨11⟩)) =
        (loadedWith copyingProgram).pushedBy (.ofObject (some ⟨11⟩)) ∧
      embedded (leftWith copyingProgram).heap ⟨11⟩ = .script { name := "f", entry := 7 } := by
  have written : Configuration.written 10 ⟨loadedWith copyingProgram, []⟩ = [⟨12⟩, ⟨12⟩] := by
    decide +kernel
  have isCell : (new 0).install.itemCell copyingProgram 0 = ⟨11⟩ := by decide +kernel
  have complete : copyingProgram.Complete := by
    have checked : ∀ instruction ∈ copyingProgram.code,
        instruction.datum.object.getD 0 < copyingProgram.items.size := by decide
    intro instruction member index refers
    have inside := checked instruction member
    rwa [refers] at inside
  have spared : ∀ index, some 0 = some index → (new 0).install.itemCell copyingProgram index ∉
      Configuration.written 10 ⟨loadedWith copyingProgram, []⟩ := by
    rintro index ⟨⟩
    rw [isCell, written]
    decide
  obtain ⟨_, _, _, _, after⟩ :=
    program_after_run (fun _ view => view) 10 () (new 0).install complete
  obtain ⟨holds, pushes⟩ := after { opcode := .push, datum := .ofObject (some 0) }
    (by simp [copyingProgram]) spared
  have isFunction := holds 0 rfl
  rw [isCell] at isFunction
  refine ⟨written, ?_, (Option.some.inj isFunction).symm⟩
  rwa [Datum.map, Datum.ofObject, Option.map_some, isCell] at pushes

/-- A program that writes over its own function. -/
def overwritingProgram : Program where
  code := #[{ opcode := .push, datum := .ofNumber (Number.ofNat 5) },
    { opcode := .push, datum := .ofObject (some 0) }, { opcode := .store }, { opcode := .leave },
    { opcode := .ret }]
  items := #[{ name := "f", entry := 4 }]
  stop := 5

/-- The second instruction of `overwritingProgram` pushes the function when the program is loaded,
and a number once the program has run. -/
theorem function_written_over :
    (loadedWith overwritingProgram).pushedBy (.ofObject (some ⟨11⟩)) = some (.function ⟨7⟩) ∧
      (leftWith overwritingProgram).code = (loadedWith overwritingProgram).code ∧
      (leftWith overwritingProgram).pushedBy (.ofObject (some ⟨11⟩)) =
        some (.number (Number.ofNat 5)) ∧
      embedded (leftWith overwritingProgram).heap ⟨11⟩ = .value := by
  decide +kernel

end Machine

end ScriptEngine
