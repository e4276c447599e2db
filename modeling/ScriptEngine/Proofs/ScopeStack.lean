/-
This file says that the scope store is a stack of finite maps. Whatever scopes are opened and closed
and whatever names are bound and defined, the store holds one map for each open scope and the global
one below them, which nothing removes, and a name means what the innermost map says that has it. A
block that closes the scopes which it opens leaves every name with its meaning, unless it defines
the name globally and no scope around the block has it.
-/

import Mathlib
import ScriptEngine.Machine.Execute

namespace ScriptEngine

/-! ### Steps -/

/-- What is done to the scope store. -/
inductive ScopeStep where
  | create
  | remove
  | store (name : Text) (cell : CellId)
  | define (name : Text) (cell : CellId)
  | defineReadOnly (name : Text) (cell : CellId)
  deriving DecidableEq

/-- A finite map from names to cells. -/
abbrev Bindings := Finmap fun _ : Text => CellId

namespace ScopeStep

/-- The machine after a step. -/
def apply (machine : Machine) : ScopeStep → Machine
  | .create => { machine with scopes := machine.scopes.push }
  | .remove => { machine with scopes := machine.scopes.pop }
  | .store name cell => { machine with scopes := machine.scopes.bind name cell }
  | .define name cell => { machine with scopes := machine.scopes.define name cell }
  | .defineReadOnly name cell =>
    { machine with
      heap := ((Heap.setReadOnly cell true).run machine.heap).2
      scopes := machine.scopes.define name cell }

/-- A stack of maps after a step, innermost first. The last map stays. -/
def onStack (stack : List Bindings) : ScopeStep → List Bindings
  | .create => ∅ :: stack
  | .remove => match stack with
    | _ :: outer :: rest => outer :: rest
    | stack => stack
  | .store name cell => stack.modifyHead (·.insert name cell)
  | .define name cell | .defineReadOnly name cell => stack.modifyLast (·.insert name cell)

/-- The cell that a step defines a name with globally. -/
def global? (name : Text) : ScopeStep → Option CellId
  | .define known cell | .defineReadOnly known cell => if known = name then some cell else none
  | _ => none

/-- The machine after some steps. -/
def run (steps : List ScopeStep) (machine : Machine) : Machine :=
  steps.foldl apply machine

/-- The stack after some steps, from a single map on. -/
def stackAfter (steps : List ScopeStep) : List Bindings :=
  steps.foldl onStack [∅]

/-- The cell that the last of some steps defines a name with globally. -/
def lastGlobal? (name : Text) : List ScopeStep → Option CellId
  | [] => none
  | step :: rest => (lastGlobal? name rest).or (step.global? name)

/-- Some steps close no scope that they have not opened, and close all that they open. -/
def Balanced (steps : List ScopeStep) : Prop :=
  (∀ front, front <+: steps → front.count .remove ≤ front.count .create) ∧
    steps.count .remove = steps.count .create

instance (steps : List ScopeStep) : Decidable (Balanced steps) :=
  decidable_of_iff ((∀ front ∈ steps.inits, front.count .remove ≤ front.count .create) ∧
    steps.count .remove = steps.count .create) (by simp only [List.mem_inits, Balanced])

/-- Some steps within a scope of their own. -/
def block (inner : List ScopeStep) : List ScopeStep :=
  .create :: inner ++ [.remove]

end ScopeStep

namespace Scopes

open ScopeStep

/-- A scope store without names. -/
def fresh (machine : Machine) (receiver : CellId) : Machine :=
  { machine with scopes := { receiver }, attached := true }

/-! ### Tables and finite maps -/

/-- A table and a finite map bind the same names to the same cells. -/
def Same (table : Table) (map : Bindings) : Prop :=
  ∀ name, table.get? name = map.lookup name

theorem same_empty : Same {} ∅ := fun _ => rfl

theorem Same.insert {table : Table} {map : Bindings} (same : Same table map) (name : Text)
    (cell : CellId) : Same (table.insert name cell) (map.insert name cell) := by
  intro other
  by_cases known : other = name
  · rw [known, Table.get?_insert_self, Finmap.lookup_insert]
  · rw [Table.get?_insert_other _ _ _ _ known, Finmap.lookup_insert_of_ne _ known]
    exact same other

/-- The maps of a stack are the `Same` as those of the open scopes and the global one below them. -/
structure Represents (scopes : Scopes) (above : List Bindings) (bottom : Bindings) : Prop where
  opened : List.Forall₂ Same scopes.opened above
  globals : Same scopes.globals bottom

theorem represents_step {machine : Machine} {above : List Bindings} {bottom : Bindings}
    (represents : Represents machine.scopes above bottom) (step : ScopeStep) :
    ∃ aboveNext bottomNext, onStack (above ++ [bottom]) step = aboveNext ++ [bottomNext] ∧
      Represents (step.apply machine).scopes aboveNext bottomNext := by
  obtain ⟨opened, globals⟩ := represents
  have defined : ∀ name cell, (above ++ [bottom]).modifyLast (·.insert name cell) =
      above ++ [bottom.insert name cell] := fun name cell => List.modifyLast_concat ..
  cases step with
  | create => exact ⟨∅ :: above, bottom, rfl, .cons same_empty opened, globals⟩
  | remove =>
    generalize isOpened : machine.scopes.opened = tables at opened
    cases opened with
    | nil =>
      refine ⟨[], bottom, rfl, ?_, globals⟩
      show List.Forall₂ Same machine.scopes.opened.tail []
      rw [isOpened]
      exact .nil
    | @cons table map tables maps same others =>
      refine ⟨maps, bottom, ?_, ?_, globals⟩
      · cases maps <;> rfl
      · show List.Forall₂ Same machine.scopes.opened.tail maps
        rwa [isOpened]
  | store name cell =>
    show ∃ aboveNext bottomNext, _ ∧ Represents (machine.scopes.bind name cell) _ _
    unfold Scopes.bind
    generalize machine.scopes.opened = tables at opened
    cases opened with
    | nil => exact ⟨[], bottom.insert name cell, rfl, .nil, globals.insert name cell⟩
    | @cons table map tables maps same others =>
      exact ⟨map.insert name cell :: maps, bottom, rfl, .cons (same.insert name cell) others,
        globals⟩
  | define name cell => exact ⟨above, _, defined name cell, opened, globals.insert name cell⟩
  | defineReadOnly name cell =>
    exact ⟨above, _, defined name cell, opened, globals.insert name cell⟩

/-- Whatever steps are made, the store `Represents` the stack that `onStack` makes of them. -/
theorem represents_run (steps : List ScopeStep) {machine : Machine} {above : List Bindings}
    {bottom : Bindings} (represents : Represents machine.scopes above bottom) :
    ∃ aboveNext bottomNext, steps.foldl onStack (above ++ [bottom]) = aboveNext ++ [bottomNext] ∧
      Represents (run steps machine).scopes aboveNext bottomNext := by
  induction steps generalizing machine above bottom with
  | nil => exact ⟨above, bottom, rfl, represents⟩
  | cons step rest ih =>
    obtain ⟨aboveNext, bottomNext, stack, next⟩ := represents_step represents step
    rw [List.foldl_cons, stack]
    exact ih next

/-! ### Looking names up -/

theorem lookup_append (name : Text) (first second : List Table) :
    lookup name (first ++ second) = (lookup name first).or (lookup name second) := by
  induction first with
  | nil => rfl
  | cons table rest ih =>
    rw [List.cons_append, lookup, lookup]
    cases table.get? name with
    | none => exact ih
    | some cell => rfl

theorem lookup_eq {tables : List Table} {maps : List Bindings}
    (same : List.Forall₂ Same tables maps) (name : Text) :
    lookup name tables = maps.findSome? (·.lookup name) := by
  induction same with
  | nil => rfl
  | cons first others ih =>
    rw [lookup, List.findSome?_cons, first name, ih]
    split <;> rename_i known <;> rw [known]

theorem get?_eq {scopes : Scopes} {above : List Bindings} {bottom : Bindings}
    (represents : Represents scopes above bottom) (name : Text) :
    scopes.get? name = (above ++ [bottom]).findSome? (·.lookup name) := by
  have whole : List.Forall₂ Same (scopes.opened ++ [scopes.globals]) (above ++ [bottom]) :=
    List.rel_append represents.opened (.cons represents.globals .nil)
  exact lookup_eq whole name

/-- A name has the cell of the innermost map that binds it, where the store `Represents` a stack. -/
theorem get?_eq_some_iff {scopes : Scopes} {above : List Bindings} {bottom : Bindings}
    (represents : Represents scopes above bottom) {name : Text} {cell : CellId} :
    scopes.get? name = some cell ↔
      ∃ nearer map further, above ++ [bottom] = nearer ++ map :: further ∧
        map.lookup name = some cell ∧ ∀ other ∈ nearer, name ∉ other := by
  rw [get?_eq represents, List.findSome?_eq_some_iff]
  simp only [Finmap.lookup_eq_none]

theorem get?_eq_none_iff {scopes : Scopes} {above : List Bindings} {bottom : Bindings}
    (represents : Represents scopes above bottom) {name : Text} :
    scopes.get? name = none ↔ ∀ map ∈ above ++ [bottom], name ∉ map := by
  rw [get?_eq represents, List.findSome?_eq_none_iff]
  simp only [Finmap.lookup_eq_none]

theorem fetch_eq {machine : Machine} (attached : machine.attached = true) {name : Text}
    (other : name ≠ "this") : Machine.fetch name machine =
      match machine.scopes.get? name with
      | some cell => .ok () { machine with accumulator := some cell }
      | none => .error (.script { cause := .unbound name }) machine := by
  unfold Machine.fetch
  rw [if_neg other]
  show (if machine.attached = true then _ else _ : Action Unit) machine = _
  rw [if_pos attached]
  cases machine.scopes.get? name <;> rfl

/-- `fetch` reports a name as unbound just when no scope has it. -/
theorem fetch_eq_error_iff {machine : Machine} (attached : machine.attached = true) {name : Text}
    (other : name ≠ "this") :
    Machine.fetch name machine = .error (.script { cause := .unbound name }) machine ↔
      machine.scopes.get? name = none := by
  rw [fetch_eq attached other]
  cases machine.scopes.get? name with
  | none => exact iff_of_true rfl rfl
  | some cell => exact iff_of_false nofun nofun

/-! ### Blocks -/

/-- The global scope after a step has the name it had or the one that the step defines, `global?`.
-/
theorem globals_apply (machine : Machine) (step : ScopeStep) (nested : machine.scopes.opened ≠ [])
    (name : Text) :
    (step.apply machine).scopes.globals.get? name =
      (step.global? name).or (machine.scopes.globals.get? name) := by
  have defined : ∀ known cell, (machine.scopes.globals.insert known cell).get? name =
      (if known = name then some cell else none).or (machine.scopes.globals.get? name) := by
    intro known cell
    split
    · case isTrue same =>
      rw [same]
      exact Table.get?_insert_self ..
    · case isFalse other => exact Table.get?_insert_other _ _ _ _ (Ne.symm other)
  cases step with
  | create | remove => rfl
  | store known cell =>
    obtain ⟨inner, outer, isOpened⟩ := List.exists_cons_of_ne_nil nested
    show (machine.scopes.bind known cell).globals.get? name = _
    rw [Scopes.bind, isOpened]
    rfl
  | define known cell | defineReadOnly known cell => exact defined known cell

/-- A step changes the scopes above the ones that it does not close, and leaves those alone. -/
theorem opened_apply {machine : Machine} {outer : List Table} {inner : Table} {between : List Table}
    (opened : machine.scopes.opened = inner :: between ++ outer) (step : ScopeStep) :
    ∃ above, (step.apply machine).scopes.opened = above ++ outer ∧
      above.length + [step].count .remove = between.length + 1 + [step].count .create := by
  cases step with
  | create => exact ⟨{} :: inner :: between, congrArg (List.cons _) opened, rfl⟩
  | remove => exact ⟨between, congrArg List.tail opened, rfl⟩
  | store name cell =>
    refine ⟨inner.insert name cell :: between, ?_, rfl⟩
    show (machine.scopes.bind name cell).opened = _
    rw [Scopes.bind, opened]
    rfl
  | define | defineReadOnly => exact ⟨inner :: between, opened, rfl⟩

/-- Steps that close no more scopes than there are above others leave the others alone. -/
theorem run_above {steps : List ScopeStep} {machine : Machine} {above outer : List Table}
    (opened : machine.scopes.opened = above ++ outer)
    (held : ∀ front, front <+: steps → front.count .remove < above.length + front.count .create) :
    ∃ left, (run steps machine).scopes.opened = left ++ outer ∧
      left.length + steps.count .remove = above.length + steps.count .create ∧
      ∀ name, (run steps machine).scopes.globals.get? name =
        (lastGlobal? name steps).or (machine.scopes.globals.get? name) := by
  induction steps generalizing machine above with
  | nil => exact ⟨above, opened, rfl, fun name => rfl⟩
  | cons step rest ih =>
    have some := held [] List.nil_prefix
    rw [List.count_nil, List.count_nil, Nat.add_zero] at some
    obtain ⟨inner, between, rfl⟩ := List.exists_cons_of_ne_nil (List.ne_nil_of_length_pos some)
    obtain ⟨next, isNext, height⟩ := opened_apply opened step
    have heldNext : ∀ front, front <+: rest →
        front.count .remove < next.length + front.count .create := by
      intro front isFront
      have whole := held (step :: front) (List.prefix_cons_inj step |>.mpr isFront)
      rw [List.length_cons, ← List.singleton_append, List.count_append, List.count_append] at whole
      omega
    obtain ⟨left, isLeft, total, globals⟩ := ih isNext heldNext
    refine ⟨left, isLeft, ?_, fun name => ?_⟩
    · rw [← List.singleton_append, List.count_append, List.count_append, List.length_cons]
      omega
    · have nested : machine.scopes.opened ≠ [] := by simp [opened]
      exact (globals name).trans (by rw [globals_apply machine step nested, lastGlobal?,
        Option.or_assoc])

/-- A `block` of steps that are `Balanced` leaves the open scopes alone, and the global one but for
what it defines. -/
theorem run_block {inner : List ScopeStep} (balanced : Balanced inner) (machine : Machine) :
    (run (block inner) machine).scopes.opened = machine.scopes.opened ∧
      ∀ name, (run (block inner) machine).scopes.globals.get? name =
        (lastGlobal? name inner).or (machine.scopes.globals.get? name) := by
  obtain ⟨held, total⟩ := balanced
  have started : (ScopeStep.create.apply machine).scopes.opened =
      [Table.empty] ++ machine.scopes.opened := rfl
  obtain ⟨left, isLeft, height, globals⟩ := run_above started fun front isFront => by
    have fewer := held front isFront
    rw [List.length_singleton]
    omega
  have closed : run (block inner) machine =
      ScopeStep.remove.apply (run inner (ScopeStep.create.apply machine)) := by
    unfold run block
    rw [List.foldl_append]
    rfl
  rw [closed]
  obtain ⟨last, rfl⟩ := List.length_eq_one_iff.mp (show left.length = 1 by
    rw [List.length_singleton] at height; omega)
  exact ⟨congrArg List.tail isLeft, globals⟩

/-- What a name means, by the open scopes and the global one. -/
theorem get?_eq_or {scopes : Scopes} {above : List Bindings} {bottom : Bindings}
    (represents : Represents scopes above bottom) (name : Text) :
    scopes.get? name =
      (above.findSome? (·.lookup name)).or (scopes.globals.get? name) := by
  rw [get?_eq represents, List.findSome?_append, represents.globals name, List.findSome?_singleton]

/-- What a name means behind a block. -/
theorem get?_run_block {inner : List ScopeStep} (balanced : Balanced inner) {machine : Machine}
    {above : List Bindings} {bottom : Bindings}
    (represents : Represents machine.scopes above bottom) (name : Text) :
    (run (block inner) machine).scopes.get? name =
      (above.findSome? (·.lookup name)).or
        ((lastGlobal? name inner).or (machine.scopes.globals.get? name)) := by
  obtain ⟨opened, globals⟩ := run_block balanced machine
  have single : ∀ table : Table, lookup name [table] = table.get? name := by
    intro table
    rw [lookup]
    cases table.get? name <;> rfl
  rw [get?, opened, lookup_append, single, globals, lookup_eq represents.opened]

/-- Behind a `block` a name means what it meant, if the block does not define it, `lastGlobal?`, or
an open scope has it. -/
theorem get?_run_block_of_kept {inner : List ScopeStep} (balanced : Balanced inner)
    {machine : Machine} {above : List Bindings} {bottom : Bindings}
    (represents : Represents machine.scopes above bottom) {name : Text}
    (kept : lastGlobal? name inner = none ∨ ∃ map ∈ above, name ∈ map) :
    (run (block inner) machine).scopes.get? name = machine.scopes.get? name := by
  rw [get?_run_block balanced represents, get?_eq_or represents]
  rcases kept with none | ⟨map, member, bound⟩
  · rw [none, Option.none_or]
  · obtain ⟨cell, isCell⟩ := Option.isSome_iff_exists.mp (List.findSome?_isSome_iff.mpr
      ⟨map, member, Finmap.lookup_isSome.mpr bound⟩)
    rw [isCell]
    rfl

/-- Behind a `block` a name means what the block defines it as, `lastGlobal?`, if no open scope has
it. -/
theorem get?_run_block_of_defined {inner : List ScopeStep} (balanced : Balanced inner)
    {machine : Machine} {above : List Bindings} {bottom : Bindings}
    (represents : Represents machine.scopes above bottom) {name : Text} {cell : CellId}
    (defined : lastGlobal? name inner = some cell) (unbound : ∀ map ∈ above, name ∉ map) :
    (run (block inner) machine).scopes.get? name = some cell := by
  have none : above.findSome? (·.lookup name) = none :=
    List.findSome?_eq_none_iff.mpr fun map member => Finmap.lookup_eq_none.mpr (unbound map member)
  rw [get?_run_block balanced represents, none, defined]
  rfl

/-! ### The scope store as a stack -/

theorem attached_run (steps : List ScopeStep) (machine : Machine) :
    (run steps machine).attached = machine.attached := by
  induction steps generalizing machine with
  | nil => rfl
  | cons step rest ih =>
    have kept : (step.apply machine).attached = machine.attached := by cases step <;> rfl
    exact (ih _).trans kept

/-- The scope store `Represents` a stack of finite maps, `stackAfter`, with the global one at the
bottom, and its depth is the height less one. A name has the cell of the innermost map that binds
it, and is reported as unbound just when none does. Behind a `Balanced` block, which closes what it
opens and nothing else, every name means what it meant, but for those that the block has defined
globally, `lastGlobal?`, and that no open scope has. -/
theorem run_represents (machine : Machine) (receiver : CellId) (steps : List ScopeStep) :
    let after := run steps (fresh machine receiver)
    ∃ above bottom, stackAfter steps = above ++ [bottom] ∧
      Represents after.scopes above bottom ∧
      after.scopes.depth = (stackAfter steps).length - 1 ∧
      (∀ name cell, after.scopes.get? name = some cell ↔
        ∃ nearer map further, stackAfter steps = nearer ++ map :: further ∧
          map.lookup name = some cell ∧ ∀ other ∈ nearer, name ∉ other) ∧
      (∀ name, after.scopes.get? name = none ↔ ∀ map ∈ stackAfter steps, name ∉ map) ∧
      (∀ name : Text, name ≠ "this" →
        (∀ cell, after.scopes.get? name = some cell →
          Machine.fetch name after = .ok () { after with accumulator := some cell }) ∧
        (Machine.fetch name after = .error (.script { cause := .unbound name }) after ↔
          ∀ map ∈ stackAfter steps, name ∉ map)) ∧
      ∀ inner, Balanced inner → ∀ name,
        (lastGlobal? name inner = none ∨ (∃ map ∈ above, name ∈ map) →
          (run (steps ++ block inner) (fresh machine receiver)).scopes.get? name =
            after.scopes.get? name) ∧
        ∀ cell, lastGlobal? name inner = some cell → (∀ map ∈ above, name ∉ map) →
          (run (steps ++ block inner) (fresh machine receiver)).scopes.get? name = some cell := by
  intro after
  have start : Represents (fresh machine receiver).scopes [] ∅ := ⟨.nil, same_empty⟩
  obtain ⟨above, bottom, stack, represents⟩ := represents_run steps start
  have attached : after.attached = true := attached_run steps (fresh machine receiver)
  have behind : ∀ inner, run (steps ++ block inner) (fresh machine receiver) =
      run (block inner) after := fun inner => List.foldl_append
  have stack : stackAfter steps = above ++ [bottom] := stack
  rw [stack]
  refine ⟨above, bottom, rfl, represents, ?_, fun name cell => get?_eq_some_iff represents,
    fun name => get?_eq_none_iff represents, fun name other => ⟨fun cell isCell => ?_, ?_⟩,
    fun inner balanced name => ?_⟩
  · rw [List.length_append, List.length_singleton, Nat.add_sub_cancel]
    exact represents.opened.length_eq
  · rw [fetch_eq attached other, isCell]
  · exact (fetch_eq_error_iff attached other).trans (get?_eq_none_iff represents)
  · rw [behind]
    exact ⟨get?_run_block_of_kept balanced represents,
      fun cell => get?_run_block_of_defined balanced represents⟩

/-- A block within another scope binds one name and defines two, of which the scope around it has
one; a name that none of them has is reported. -/
theorem run_represents_block :
    let steps : List ScopeStep := [.store "a" ⟨1⟩, .create, .store "b" ⟨2⟩]
    let inner : List ScopeStep := [.store "a" ⟨3⟩, .create, .define "c" ⟨4⟩, .remove,
      .defineReadOnly "b" ⟨5⟩, .define "c" ⟨6⟩]
    Balanced inner ∧
      Machine.fetch "d" (run steps (fresh default default)) =
        .error (.script { cause := .unbound "d" }) (run steps (fresh default default)) ∧
      (run (steps ++ block inner) (fresh default default)).scopes.get? "a" = some ⟨1⟩ ∧
      (run (steps ++ block inner) (fresh default default)).scopes.get? "b" = some ⟨2⟩ ∧
      (run (steps ++ block inner) (fresh default default)).scopes.get? "c" = some ⟨6⟩ := by
  intro steps inner
  have balanced : Balanced inner := by decide
  obtain ⟨above, bottom, stack, -, -, -, -, fetches, blocks⟩ :=
    run_represents default default steps
  have isStack : stackAfter steps =
      [Finmap.insert (Text.ofString "b") ⟨2⟩ ∅] ++ [Finmap.insert (Text.ofString "a") ⟨1⟩ ∅] := by
    decide
  obtain ⟨rfl, -⟩ := List.append_inj' (stack.symm.trans isStack) rfl
  have names := fun name => blocks inner balanced name
  refine ⟨balanced, (fetches "d" (by decide)).2.mpr (by rw [isStack]; decide), ?_, ?_, ?_⟩
  · exact (names "a").1 (.inl (by decide))
  · exact (names "b").1 (.inr ⟨_, List.mem_singleton_self _, by decide⟩)
  · exact (names "c").2 ⟨6⟩ (by decide) (by decide)

end Scopes

end ScriptEngine
