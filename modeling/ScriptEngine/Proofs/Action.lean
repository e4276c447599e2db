/-
This file is how the theory takes actions apart. An action that succeeds is a sequence of
actions that succeed, and one that fails has a first part that fails. For what holds however
an action ends there is the machine it leaves: an action leads along a relation when the
machine it leaves is some steps of the relation away from the machine it was given.
-/

import Mathlib.Logic.Relation
import ScriptEngine.Machine.Run

namespace ScriptEngine

open Relation

namespace Machine

variable {Result Next : Type}

/-! ### Success and failure of a sequence -/

theorem bind_eq_ok {action : Action Result} {next : Result → Action Next}
    {machine final : Machine} {value : Next} :
    (action >>= next) machine = .ok value final ↔
      ∃ result middle, action machine = .ok result middle ∧
        next result middle = .ok value final := by
  change EStateM.bind action next machine = _ ↔ _
  unfold EStateM.bind
  cases action machine with
  | ok result middle =>
    refine ⟨fun equal => ⟨result, middle, rfl, equal⟩, ?_⟩
    rintro ⟨_, _, ⟨⟩, equal⟩
    exact equal
  | error fault middle =>
    constructor
    · rintro ⟨⟩
    · rintro ⟨_, _, ⟨⟩, _⟩

theorem bind_eq_error {action : Action Result} {next : Result → Action Next}
    {machine final : Machine} {fault : Fault} :
    (action >>= next) machine = .error fault final ↔
      action machine = .error fault final ∨
        ∃ result middle, action machine = .ok result middle ∧
          next result middle = .error fault final := by
  change EStateM.bind action next machine = _ ↔ _
  unfold EStateM.bind
  cases action machine with
  | ok result middle =>
    refine ⟨fun equal => .inr ⟨result, middle, rfl, equal⟩, ?_⟩
    rintro (⟨⟨⟩⟩ | ⟨_, _, ⟨⟩, equal⟩)
    exact equal
  | error failure middle =>
    refine ⟨fun equal => .inl (by cases equal; rfl), ?_⟩
    rintro (⟨⟨⟩⟩ | ⟨_, _, ⟨⟩, _⟩)
    rfl

/-- A sequence goes on from the machine that its first action leaves. -/
theorem bind_of_ok {action : Action Result} {next : Result → Action Next}
    {machine middle : Machine} {result : Result} (first : action machine = .ok result middle) :
    (action >>= next) machine = next result middle := by
  change EStateM.bind action next machine = _
  unfold EStateM.bind
  rw [first]

theorem bind_of_error {action : Action Result} {next : Result → Action Next}
    {machine middle : Machine} {fault : Fault} (first : action machine = .error fault middle) :
    (action >>= next) machine = .error fault middle := by
  change EStateM.bind action next machine = _
  unfold EStateM.bind
  rw [first]

theorem get_bind (next : Machine → Action Next) (machine : Machine) :
    (get >>= next) machine = next machine machine := rfl

theorem modify_bind (change : Machine → Machine) (next : Unit → Action Next) (machine : Machine) :
    (modify change >>= next) machine = next () (change machine) := rfl

theorem onHeap_bind (operation : StateM Heap Result) (next : Result → Action Next)
    (machine : Machine) :
    (onHeap operation >>= next) machine =
      next (operation machine.heap).1 { machine with heap := (operation machine.heap).2 } := rfl

theorem onScopes_of_attached {machine : Machine} (usable : machine.attached = true)
    (change : Scopes → Scopes) :
    onScopes change machine = .ok () { machine with scopes := change machine.scopes } := by
  unfold onScopes
  rw [get_bind, if_pos usable]
  rfl

theorem onScopes_of_detached {machine : Machine} (unusable : machine.attached = false)
    (change : Scopes → Scopes) :
    onScopes change machine = .error (.breakdown .noScopes) machine := by
  unfold onScopes
  rw [get_bind, if_neg (by rw [unusable]; exact Bool.false_ne_true)]
  rfl

theorem tryCatch_of_ok {action : Action Result} {handler : Fault → Action Result}
    {machine middle : Machine} {result : Result} (first : action machine = .ok result middle) :
    tryCatch action handler machine = .ok result middle := by
  change EStateM.tryCatch action handler machine = _
  unfold EStateM.tryCatch
  rw [first]

theorem tryCatch_of_error {action : Action Result} {handler : Fault → Action Result}
    {machine middle : Machine} {fault : Fault} (first : action machine = .error fault middle) :
    tryCatch action handler machine = handler fault middle := by
  change EStateM.tryCatch action handler machine = _
  unfold EStateM.tryCatch
  rw [first]
  rfl

/-! ### The machine that an action leaves -/

/-- The machine that an action leaves, whether it fails or not. -/
def leftBy (action : Action Result) (machine : Machine) : Machine :=
  match action machine with
  | .ok _ final | .error _ final => final

theorem leftBy_of_ok {action : Action Result} {machine final : Machine} {result : Result}
    (ends : action machine = .ok result final) : leftBy action machine = final := by
  unfold leftBy
  rw [ends]

theorem leftBy_of_error {action : Action Result} {machine final : Machine} {fault : Fault}
    (ends : action machine = .error fault final) : leftBy action machine = final := by
  unfold leftBy
  rw [ends]

theorem leftBy_bind_of_ok {action : Action Result} {next : Result → Action Next}
    {machine middle : Machine} {result : Result} (first : action machine = .ok result middle) :
    leftBy (action >>= next) machine = leftBy (next result) middle := by
  unfold leftBy
  rw [bind_of_ok first]

/-- Some steps of a relation lead to the machine that an action leaves. -/
def Leads (step : Machine → Machine → Prop) (action : Action Result) (machine : Machine) : Prop :=
  ReflTransGen step machine (leftBy action machine)

namespace Leads

variable {step : Machine → Machine → Prop} {machine : Machine}

theorem pure (result : Result) : Leads step (Pure.pure result) machine :=
  .refl

theorem throw (fault : Fault) : Leads step (MonadExcept.throw fault : Action Result) machine :=
  .refl

theorem modify (change : Machine → Machine) (taken : step machine (change machine)) :
    Leads step (modify change) machine :=
  .single taken

theorem bind {action : Action Result} {next : Result → Action Next}
    (first : Leads step action machine)
    (second : ∀ result middle, action machine = .ok result middle →
      Leads step (next result) middle) :
    Leads step (action >>= next) machine := by
  cases ends : action machine with
  | ok result middle =>
    have rest := second result middle ends
    unfold Leads at first rest ⊢
    rw [leftBy_of_ok ends] at first
    rw [leftBy_bind_of_ok ends]
    exact first.trans rest
  | error fault middle =>
    unfold Leads at first ⊢
    rw [leftBy_of_error ends] at first
    rwa [leftBy_of_error (bind_of_error ends)]

/-- What is read of the machine is read of the machine that is there. -/
theorem get {next : Machine → Action Next} (rest : Leads step (next machine) machine) :
    Leads step (MonadState.get >>= next) machine :=
  rest

theorem map {action : Action Result} (change : Result → Next) (first : Leads step action machine) :
    Leads step (change <$> action) machine :=
  bind first fun result _ _ => pure (change result)

theorem tryCatch {action : Action Result} {handler : Fault → Action Result}
    (first : Leads step action machine)
    (second : ∀ fault middle, action machine = .error fault middle →
      Leads step (handler fault) middle) :
    Leads step (MonadExcept.tryCatch action handler) machine := by
  cases ends : action machine with
  | ok result middle =>
    unfold Leads at first ⊢
    rw [leftBy_of_ok ends] at first
    rwa [leftBy_of_ok (tryCatch_of_ok ends)]
  | error fault middle =>
    have rest := second fault middle ends
    unfold Leads at first rest ⊢
    rw [leftBy_of_error ends] at first
    refine first.trans ?_
    unfold leftBy at rest ⊢
    rwa [tryCatch_of_error ends]

theorem mono {wider : Machine → Machine → Prop} {action : Action Result}
    (first : Leads step action machine)
    (included : ∀ before after, step before after → wider before after) :
    Leads wider action machine :=
  ReflTransGen.mono included _ _ first

end Leads

end Machine

end ScriptEngine
