/-
This file says how a run fails. A move that fails is one of four: the end of the program inside a
function that the host has entered, an instruction that raises a script fault, one that fails
otherwise, and a move that finds nothing to execute or nothing to resume. The first two take the run
out through the suspended calls, and the other two leave it where it stands.
-/

import ScriptEngine.Proofs.Leaving

namespace ScriptEngine

open Machine

namespace Configuration

variable {configuration : Configuration}

/-! ### Moves that fail -/

/-- What a move that fails can be, in one of four ways, with the fault and the machine it ends with:
an instruction fails, or a fault comes out by `unwind`, or there is nothing to execute. -/
inductive Fails (configuration : Configuration) : Fault → Machine → Prop where
  /-- The end of the program inside a function that the host has entered. -/
  | leaves {fault : Fault} {final : Machine}
    (move : configuration.machine.nextMove configuration.pending = .leave)
    (unwinds : unwind { cause := .leave } configuration.pending configuration.machine =
      .error fault final) : Fails configuration fault final
  /-- An instruction that raises a script fault. -/
  | raises {instruction : Instruction CellId} {inner : ScriptFault} {middle : Machine}
    {fault : Fault} {final : Machine} (executes : configuration.Executes)
    (present : configuration.machine.instruction? = some instruction)
    (raised : execute instruction configuration.machine = .error (.script inner) middle)
    (unwinds : unwind (inner.passing ⟨middle.current, instruction.opcode⟩) configuration.pending
      middle = .error fault final) : Fails configuration fault final
  /-- An instruction that fails otherwise. -/
  | stops {instruction : Instruction CellId} {fault : Fault} {final : Machine}
    (executes : configuration.Executes)
    (present : configuration.machine.instruction? = some instruction)
    (other : ∀ inner, fault ≠ .script inner)
    (failed : execute instruction configuration.machine = .error fault final) :
    Fails configuration fault final
  /-- There is no instruction, or a function that has returned has left too little behind. -/
  | stands {fault : Fault} {final : Machine} (other : ∀ inner, fault ≠ .script inner)
    (scopes : final.scopes = configuration.machine.scopes)
    (frames : final.frames = configuration.machine.frames) : Fails configuration fault final

/-- Where the activations are `Orderly`, a call whose function has returned fails only if that has
left too little behind. -/
theorem Orderly.fails_of_resume {machine final : Machine} {activation : Activation}
    {pending : List Activation} {fault : Fault}
    (orderly : Orderly ⟨machine, activation :: pending⟩)
    (returned : machine.frames.size ≤ activation.depth)
    (ends : advance (activation :: pending) machine = .error fault final) :
    Fails ⟨machine, activation :: pending⟩ fault final := by
  have move : machine.nextMove (activation :: pending) = .resume activation pending := by
    rw [nextMove, if_neg (Nat.not_lt_of_le returned)]
  have resumes := (get_bind _ _).symm.trans ends
  rw [move] at resumes
  rcases bind_eq_error.mp resumes with failed | ⟨result, concluded, concluding, _⟩
  · obtain ⟨other, scopes, frames⟩ := conclude_eq_error failed
    exact .stands other scopes frames
  · obtain ⟨operand, topmost, enough, _⟩ := conclude_eq_ok concluding
    obtain ⟨after, moves, _⟩ := orderly.moves_of_returned returned enough
    cases ends.symm.trans moves

/-- Where the activations are `Orderly`, every move that fails is one that `Fails` in one of the
four ways. -/
theorem Orderly.fails {fault : Fault} {final : Machine} (orderly : configuration.Orderly)
    (ends : advance configuration.pending configuration.machine = .error fault final) :
    configuration.Fails fault final := by
  obtain ⟨machine, pending⟩ := configuration
  have moved := (get_bind _ _).symm.trans ends
  cases move : machine.nextMove pending with
  | finish =>
    rw [move] at moved
    cases moved
  | leave =>
    rw [move] at moved
    exact .leaves move moved
  | resume activation rest =>
    obtain ⟨rfl, returned⟩ := nextMove_eq_resume move
    exact orderly.fails_of_resume returned ends
  | execute =>
    have executes : Executes ⟨machine, pending⟩ := move
    have executing := executes.advance_eq.symm.trans ends
    cases present : machine.instruction? with
    | none =>
      have missing := (get_bind _ _).symm.trans executing
      rw [present] at missing
      cases missing
      exact .stands (fun _ => Fault.noConfusion) rfl rfl
    | some instruction =>
      cases executed : execute instruction machine with
      | ok flow middle =>
        cases flow with
        | done => cases (executeNext_of_done present executed).symm.trans executing
        | suspended activation =>
          cases (executeNext_of_suspended present executed).symm.trans executing
      | error failure middle =>
        by_cases other : ∀ inner, failure ≠ .script inner
        · cases (executeNext_of_fault present executed other).symm.trans executing
          exact .stops executes present other executed
        · obtain ⟨inner, rfl⟩ : ∃ inner, failure = .script inner := by
            simpa only [ne_eq, not_forall, not_not] using other
          exact .raises executes present executed
            ((executeNext_of_script present executed).symm.trans executing)

end Configuration

namespace Machine

open ScriptEngine.Configuration

/-- The end of a `run` is that of its `loop`, but for the end of the program inside a function that
the host has entered, which is an end like any other. -/
theorem run_eq {View : Type} {observe : Machine → View → View} {fuel : Nat} {view shown : View}
    {machine final : Machine} {outcome : Outcome}
    (ends : run observe fuel view machine = (outcome, shown, final)) :
    ∃ reached left, loop observe fuel [] view machine = (reached, shown, left) ∧
      final.attached = left.attached ∧ final.scopes = left.scopes ∧ final.frames = left.frames ∧
      ((reached = outcome ∧
          ∀ fault, outcome = .failed (.script fault) → fault.cause ≠ .leave) ∨
        ∃ fault, reached = .failed (.script fault) ∧ fault.cause = .leave ∧
          outcome = .finished none) := by
  unfold run at ends
  rcases looped : loop observe fuel [] view machine with ⟨reached, last, left⟩
  rw [looped] at ends
  refine ⟨reached, left, ?_⟩
  split at ends
  · rename_i fault last left equal
    cases equal
    split at ends
    · rename_i cause
      cases ends
      exact ⟨rfl, rfl, rfl, rfl, .inr ⟨fault, rfl, cause, rfl⟩⟩
    · rename_i other
      cases ends
      refine ⟨rfl, rfl, rfl, rfl, .inl ⟨rfl, ?_⟩⟩
      rintro _ ⟨⟩
      exact other
  · rename_i other
    cases ends
    refine ⟨rfl, rfl, rfl, rfl, .inl ⟨rfl, ?_⟩⟩
    rintro fault rfl
    exact absurd rfl (other fault shown final)

end Machine

namespace Host

/-- A program that has the host enter a function of one instruction. -/
def enteringProgram (body : Instruction Nat) : Program :=
  { leavingProgram with code := leavingProgram.code.modify 0 fun _ => body }

end Host

end ScriptEngine
