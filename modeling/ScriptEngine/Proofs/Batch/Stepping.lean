/-
This file proves that an execution in steps is the execution. From each point on there is one way
in which the execution ends, a step does not change it, and where the execution begins it is what
executing the program at once gives. Each step also takes one off what is left to do at most, so
that there are only so many of them.
-/

import ScriptEngine.Proofs.Preloading
import ScriptEngine.Runner.Batch

namespace ScriptEngine

theorem Machine.run_eq_settled {View : Type} (observe : Machine → View → View) (fuel : Nat)
    (view : View) (machine : Machine) :
    Machine.run observe fuel view machine =
      Machine.settled (Machine.loop observe fuel [] view machine) := by
  unfold Machine.run Machine.settled
  rcases Machine.loop observe fuel [] view machine with ⟨outcome | fault | _, view, machine⟩
  · rfl
  · cases fault <;> rfl
  · rfl

namespace Session

/-- The moves that are left of a run that goes on with some activations. -/
def runFrom (fuel : Nat) (pending : List Activation) (session : Session) :
    Session × Option Stop :=
  session.behind (Machine.settled
    (Machine.loop (observe session.traced) fuel pending session.trace session.machine))

theorem run_eq_runFrom (fuel : Nat) (load : Machine → Machine) (session : Session) :
    session.run fuel load = runFrom fuel [] { session with machine := load session.machine } := by
  unfold run runFrom
  dsimp only
  rw [Machine.run_eq_settled]
  rcases Machine.settled (Machine.loop (observe session.traced) fuel [] session.trace
    (load session.machine)) with ⟨outcome | fault | _, trace, machine⟩
  · rfl
  · cases fault <;> rfl
  · rfl

end Session

namespace Host

variable (host : Host) (program : Program)

/-! ### How an execution ends -/

/-- What an execution comes to that stands between two runs or is over. -/
def close : Session × Phase → Session × Execution
  | (session, .between preload) =>
    match session.runPreload host.fuel preload with
    | (session, some stop) => session.stopped host.settings.tapOnFault stop
    | (session, none) =>
      session.executeOwn host.fuel host.settings.tapOnFault (·.load program)
  | (session, .ended execution) => (session, execution)
  | (session, .running _ _ _) => (session, .outOfFuel)

/-- What an execution comes to from where it stands. -/
def finish : Session × Phase → Session × Execution
  | (session, .running rest? fuel pending) =>
    host.close program (host.proceed rest? (session.runFrom fuel pending))
  | standing => host.close program standing

/-- Behind a run an execution stands between two runs or is over. -/
theorem finish_proceed (rest? : Option (List (Except LoadError Program)))
    (behind : Session × Option Session.Stop) :
    host.finish program (host.proceed rest? behind) =
      host.close program (host.proceed rest? behind) := by
  rcases behind with ⟨session, _ | stop⟩
  · cases rest? <;> rfl
  · rfl

theorem close_between_nil (session : Session) :
    host.close program (session, .between []) =
      host.close program (host.proceed none (session.run host.fuel (·.load program))) := by
  change session.executeOwn host.fuel host.settings.tapOnFault (·.load program) = _
  unfold Session.executeOwn
  rcases session.run host.fuel (·.load program) with ⟨after, _ | stop⟩ <;> rfl

theorem close_between_cons (loaded : Program) (rest : List (Except LoadError Program))
    (session : Session) :
    host.close program (session, .between (.ok loaded :: rest)) =
      host.close program (host.proceed (some rest) (session.run host.fuel (·.load loaded))) := by
  unfold close
  dsimp only
  rw [Session.runPreload]
  rcases session.run host.fuel (·.load loaded) with ⟨after, _ | stop⟩ <;> rfl

/-- A step does not change what an execution comes to, its `finish`. -/
theorem finish_step (session : Session) (phase : Phase) :
    host.finish program (host.step program session phase) =
      host.finish program (session, phase) := by
  cases phase with
  | ended execution => rfl
  | between preload =>
    cases preload with
    | nil =>
      change host.close program (host.proceed none (Session.runFrom host.fuel []
        { session with machine := session.machine.load program })) = _
      rw [← Session.run_eq_runFrom host.fuel (·.load program)]
      exact (host.close_between_nil program session).symm
    | cons loaded rest =>
      cases loaded with
      | error error => rfl
      | ok loaded =>
        change host.close program (host.proceed (some rest) (Session.runFrom host.fuel []
          { session with machine := session.machine.load loaded })) = _
        rw [← Session.run_eq_runFrom host.fuel (·.load loaded)]
        exact (host.close_between_cons program loaded rest session).symm
  | running rest? fuel pending =>
    cases fuel with
    | zero => exact host.finish_proceed program rest? (session, some .outOfFuel)
    | succ fuel =>
      change _ = host.close program (host.proceed rest? (session.runFrom (fuel + 1) pending))
      unfold Session.runFrom
      rw [step, Machine.loop]
      cases Machine.advance pending session.machine with
      | error fault machine => exact host.finish_proceed program rest? _
      | ok progress machine =>
        cases progress with
        | running later => rfl
        | finished result => exact host.finish_proceed program rest? _

/-- From its beginning an execution comes, by `finish`, to what executing the program gives. -/
theorem finish_begin (session : Session) :
    host.finish program (host.begin session) = host.execute program session := by
  unfold begin execute executeLoaded Session.executeLoaded Session.prepare
  by_cases preloaded : session.preloaded = true
  · rw [if_pos preloaded, if_pos preloaded]
    rfl
  · rw [if_neg preloaded, if_neg preloaded]
    rfl

end Host

/-! ### How much is left to do -/

/-- How many steps an execution takes at most, when each run has so much fuel. -/
def Phase.left (fuel : Nat) : Phase → Nat
  | .between preload => (preload.length + 1) * (fuel + 2) + 1
  | .running (some rest) remaining _ => remaining + 1 + ((rest.length + 1) * (fuel + 2) + 1)
  | .running none remaining _ => remaining + 1
  | .ended _ => 0

namespace Host

variable (host : Host) (program : Program)

theorem left_proceed_lt (pending : List Activation)
    (rest? : Option (List (Except LoadError Program))) (behind : Session × Option Session.Stop) :
    (host.proceed rest? behind).2.left host.fuel <
      (Phase.running rest? 0 pending).left host.fuel := by
  rcases behind with ⟨session, _ | stop⟩
  · cases rest? with
    | none => exact Nat.succ_pos _
    | some rest => exact Nat.lt_add_of_pos_left (Nat.succ_pos 0)
  · cases rest? <;> exact Nat.succ_pos _

theorem left_running_lt (rest? : Option (List (Except LoadError Program))) (fuel : Nat)
    (pending later : List Activation) :
    (Phase.running rest? fuel later).left host.fuel <
      (Phase.running rest? (fuel + 1) pending).left host.fuel := by
  cases rest? <;> simp only [Phase.left] <;> omega

/-- A step of an execution that is not over leaves less to do, `Phase.left`. -/
theorem left_step_lt (session : Session) {phase : Phase}
    (going : ∀ execution, phase ≠ .ended execution) :
    (host.step program session phase).2.left host.fuel < phase.left host.fuel := by
  cases phase with
  | ended execution => exact absurd rfl (going execution)
  | between preload =>
    cases preload with
    | nil =>
      simp only [step, Phase.left, List.length_nil]
      omega
    | cons loaded rest =>
      cases loaded with
      | error error =>
        refine Nat.lt_trans (host.left_proceed_lt [] (some rest) _) ?_
        simp only [Phase.left, List.length_cons, Nat.add_mul]
        omega
      | ok loaded =>
        simp only [step, Phase.left, List.length_cons, Nat.add_mul]
        omega
  | running rest? fuel pending =>
    cases fuel with
    | zero => exact host.left_proceed_lt pending rest? _
    | succ fuel =>
      have running := host.left_running_lt rest? fuel pending
      have least : (Phase.running rest? 0 pending).left host.fuel ≤
          (Phase.running rest? (fuel + 1) pending).left host.fuel := by
        cases rest? <;> simp only [Phase.left] <;> omega
      rw [step]
      cases Machine.advance pending session.machine with
      | error fault machine => exact Nat.lt_of_lt_of_le (host.left_proceed_lt pending rest? _) least
      | ok progress machine =>
        cases progress with
        | running later => exact running later
        | finished result => exact Nat.lt_of_lt_of_le (host.left_proceed_lt pending rest? _) least

end Host

end ScriptEngine
