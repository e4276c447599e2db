/-
This file says when the preload programs of a host have run. The first execution on a machine
begins with them, in the order of their list, and every later execution takes it that they have
run. So if all of them come to their ends, they run once and before everything else; but if one of
them stops, the execution that ran it fails, and the next one is executed without them.
-/

import ScriptEngine.Proofs.Lockstep

namespace ScriptEngine

/-! ### Executions one after another -/

namespace Session

/-- Executes what is loaded onto the machine, and nothing before it. -/
def executeOwn (fuel : Nat) (tapOnFault : Bool) (load : Machine → Machine) (session : Session) :
    Session × Execution :=
  match session.run fuel load with
  | (session, some stop) => stopped tapOnFault session stop
  | (session, none) =>
    let (cell, machine) := session.machine.takeResult
    ({ session with machine }, .value cell)

/-- What executions give one after another on a session, and the session they leave. -/
def inTurn (execute : (Machine → Machine) → Session → Session × Execution) :
    List (Machine → Machine) → Session → Session × List Execution
  | [], session => (session, [])
  | load :: later, session =>
    let (next, execution) := execute load session
    let (last, executions) := inTurn execute later next
    (last, execution :: executions)

variable {fuel : Nat} {tapOnFault : Bool} {preload : List (Except LoadError Program)}
  {load : Machine → Machine} {session ready left : Session} {stop : Stop}

theorem executeLoaded_of_prepared (prepared : session.prepare fuel preload = (ready, none)) :
    executeLoaded fuel tapOnFault preload load session = executeOwn fuel tapOnFault load ready := by
  unfold executeLoaded
  rw [prepared]
  rfl

theorem executeLoaded_of_stopped (prepared : session.prepare fuel preload = (left, some stop)) :
    executeLoaded fuel tapOnFault preload load session = stopped tapOnFault left stop := by
  unfold executeLoaded
  rw [prepared]

theorem prepare_of_preloaded (preloaded : session.preloaded = true) :
    session.prepare fuel preload = (session, none) :=
  if_pos preloaded

/-! ### The mark that the preload programs were begun -/

theorem run_preloaded (fuel : Nat) (load : Machine → Machine) (session : Session) :
    (session.run fuel load).1.preloaded = session.preloaded := by
  unfold run
  dsimp only
  split <;> rfl

theorem stopped_preloaded (tapOnFault : Bool) (session : Session) (stop : Stop) :
    (stopped tapOnFault session stop).1.preloaded = session.preloaded := by
  cases stop with
  | error error =>
    simp only [stopped, tapFault]
    split <;> rfl
  | broken breakdown => rfl
  | outOfFuel => rfl

theorem executeOwn_preloaded (fuel : Nat) (tapOnFault : Bool) (load : Machine → Machine)
    (session : Session) :
    (executeOwn fuel tapOnFault load session).1.preloaded = session.preloaded := by
  have kept := run_preloaded fuel load session
  unfold executeOwn
  rcases ran : session.run fuel load with ⟨reached, _ | stop⟩
  · rw [ran] at kept
    exact kept
  · rw [ran] at kept
    exact (stopped_preloaded tapOnFault reached stop).trans kept

/-- Once the preload programs were begun, nothing comes before what is executed, so that `inTurn`
gives what `executeOwn` does. -/
theorem inTurn_of_preloaded (loads : List (Machine → Machine)) {session : Session}
    (preloaded : session.preloaded = true) :
    inTurn (executeLoaded fuel tapOnFault preload) loads session =
      inTurn (executeOwn fuel tapOnFault) loads session := by
  induction loads generalizing session with
  | nil => rfl
  | cons load later inductionHypothesis =>
    have own : executeLoaded fuel tapOnFault preload load session =
        executeOwn fuel tapOnFault load session :=
      executeLoaded_of_prepared (prepare_of_preloaded preloaded)
    have marked := (executeOwn_preloaded fuel tapOnFault load session).trans preloaded
    simp only [inTurn]
    rw [own, inductionHypothesis marked]

end Session

/-! ### The preload programs -/

namespace Host

/-- The files of a list are loaded and run to their ends on the machine of a session, each once and
in the order of the list, and the machine is reset behind each. -/
inductive RunsToEnd (host : Host) : List Text → Session → Session → Prop where
  | nil {session : Session} : RunsToEnd host [] session session
  | cons {path : Text} {paths : List Text} {program : Program} {session last : Session}
    {result : Option CellId} {trace : Array Text} {machine : Machine}
    (loaded : host.load path = .ok program)
    (ran : Machine.run (Session.observe session.traced) host.fuel session.trace
      (session.machine.load program) = (.finished result, trace, machine))
    (others : RunsToEnd host paths { session with machine := machine.reset, trace } last) :
    RunsToEnd host (path :: paths) session last

/-- A file cannot be loaded, or its program does not come to its end on the machine of a session. -/
inductive StopsAt (host : Host) (path : Text) (session : Session) : Session → Session.Stop → Prop
  | load {error : LoadError} (refused : host.load path = .error error) :
    StopsAt host path session session (.error (.load error))
  | run {program : Program} {left : Session} {stop : Session.Stop}
    (loaded : host.load path = .ok program)
    (ran : session.run host.fuel (·.load program) = (left, some stop)) :
    StopsAt host path session left stop

variable {host : Host} {path : Text} {paths : List Text} {session ready left : Session}

theorem run_of_finished {load : Machine → Machine} {result : Option CellId} {trace : Array Text}
    {machine : Machine}
    (ran : Machine.run (Session.observe session.traced) host.fuel session.trace
      (load session.machine) = (.finished result, trace, machine)) :
    session.run host.fuel load = ({ session with machine, trace }, none) := by
  unfold Session.run
  simp only [ran]

theorem finished_of_run {load : Machine → Machine} {reached : Session}
    (ran : session.run host.fuel load = (reached, none)) :
    ∃ result, Machine.run (Session.observe session.traced) host.fuel session.trace
        (load session.machine) = (.finished result, reached.trace, reached.machine) ∧
      reached = { session with machine := reached.machine, trace := reached.trace } := by
  unfold Session.run at ran
  rcases ended : Machine.run (Session.observe session.traced) host.fuel session.trace
    (load session.machine) with ⟨outcome, trace, machine⟩
  simp only [ended] at ran
  split at ran
  · cases ran
    exact ⟨_, rfl, rfl⟩
  · cases ran
  · cases ran
  · cases ran

theorem StopsAt.runPreload {stop : Session.Stop} (stops : host.StopsAt path session left stop)
    (rest : List Text) :
    Session.runPreload host.fuel ((path :: rest).map host.load) session = (left, some stop) := by
  cases stops with
  | load refused => rw [List.map_cons, refused, Session.runPreload]
  | run loaded ran => rw [List.map_cons, loaded, Session.runPreload, ran]

theorem RunsToEnd.runPreload_append (runs : host.RunsToEnd paths session ready)
    (rest : List Text) :
    Session.runPreload host.fuel ((paths ++ rest).map host.load) session =
      Session.runPreload host.fuel (rest.map host.load) ready := by
  induction runs with
  | nil => rfl
  | @cons path paths program session last result trace machine loaded ran others
      inductionHypothesis =>
    have finished : session.run host.fuel (·.load program) =
        ({ session with machine, trace }, none) := run_of_finished ran
    rw [List.cons_append, List.map_cons, loaded, Session.runPreload, finished]
    exact inductionHypothesis

/-- `RunsToEnd` holds of the files of a list, or one of them stops behind others that did,
`StopsAt`. -/
theorem runsToEnd_or_stopsAt (host : Host) (paths : List Text) (session : Session) :
    (∃ ready, host.RunsToEnd paths session ready) ∨
      ∃ done path rest reached left stop, paths = done ++ path :: rest ∧
        host.RunsToEnd done session reached ∧ host.StopsAt path reached left stop := by
  induction paths generalizing session with
  | nil => exact .inl ⟨session, .nil⟩
  | cons path paths inductionHypothesis =>
    rcases loaded : host.load path with error | program
    · exact .inr ⟨[], path, paths, session, session, _, rfl, .nil, .load loaded⟩
    rcases ran : session.run host.fuel (·.load program) with ⟨left, _ | stop⟩
    · obtain ⟨result, finished, same⟩ := finished_of_run ran
      rcases inductionHypothesis { session with machine := left.machine.reset, trace := left.trace }
        with ⟨ready, runs⟩ | ⟨done, failing, rest, reached, stopped, stop, split, runs, stops⟩
      · exact .inl ⟨ready, .cons loaded finished runs⟩
      · exact .inr ⟨path :: done, failing, rest, reached, stopped, stop,
          congrArg (path :: ·) split, .cons loaded finished runs, stops⟩
    · exact .inr ⟨[], path, paths, session, left, stop, rfl, .nil, .run loaded ran⟩

/-! ### What executions on a new machine do -/

/-- A new session on which the preload programs are about to run. -/
def begun (host : Host) : Session :=
  { host.newSession with preloaded := true }

/-- Executes what is loaded onto the machine of a session, and nothing before it. -/
def executeOwn (host : Host) : (Machine → Machine) → Session → Session × Execution :=
  Session.executeOwn host.fuel host.settings.tapOnFault

theorem RunsToEnd.preloaded (runs : host.RunsToEnd paths session ready) :
    ready.preloaded = session.preloaded := by
  induction runs with
  | nil => rfl
  | cons _ _ _ inductionHypothesis => exact inductionHypothesis

theorem StopsAt.preloaded {stop : Session.Stop} (stops : host.StopsAt path session left stop) :
    left.preloaded = session.preloaded := by
  cases stops with
  | load => rfl
  | run _ ran => exact (congrArg (·.1.preloaded) ran).symm.trans (Session.run_preloaded _ _ _)

theorem stopped_ne_value (tapOnFault : Bool) (session : Session) (stop : Session.Stop)
    (cell : CellId) : (Session.stopped tapOnFault session stop).2 ≠ .value cell := by
  cases stop <;> exact Execution.noConfusion

theorem not_runsToEnd {done rest : List Text} {reached : Session} {stop : Session.Stop}
    (runs : host.RunsToEnd done session reached) (stops : host.StopsAt path reached left stop)
    (ready : Session) : ¬ host.RunsToEnd (done ++ path :: rest) session ready := by
  intro all
  have halted := (runs.runPreload_append (path :: rest)).trans (stops.runPreload rest)
  have ended := all.runPreload_append []
  rw [List.append_nil, halted] at ended
  cases ended

theorem inTurn_of_begun (loads : List (Machine → Machine)) (preloaded : session.preloaded = true) :
    Session.inTurn host.executeLoaded loads session =
      Session.inTurn host.executeOwn loads session :=
  Session.inTurn_of_preloaded loads preloaded

theorem prepare_newSession (host : Host) :
    host.newSession.prepare host.fuel (host.settings.preload.map host.load) =
      Session.runPreload host.fuel (host.settings.preload.map host.load) host.begun :=
  if_neg Bool.false_ne_true

/-- For every sequence of executions on a new machine: either every preload file is run to its end
first, `Host.RunsToEnd`, once and in the order of the list, and then come the executions alone,
`Host.executeOwn`; or `Host.StopsAt` says that a file stops behind those that were run to their
ends, the first execution gives no value, and the others are executed alone on the machine it
leaves: neither that file nor one behind it is run again. -/
theorem executions_behind_preload (host : Host) (load : Machine → Machine)
    (later : List (Machine → Machine)) :
    (∃ ready, host.RunsToEnd host.settings.preload host.begun ready ∧
        Session.inTurn host.executeLoaded (load :: later) host.newSession =
          Session.inTurn host.executeOwn (load :: later) ready) ∨
      ∃ done path rest reached left stop, host.settings.preload = done ++ path :: rest ∧
        host.RunsToEnd done host.begun reached ∧ host.StopsAt path reached left stop ∧
        (∀ ready, ¬ host.RunsToEnd host.settings.preload host.begun ready) ∧
        ∃ failed execution,
          Session.stopped host.settings.tapOnFault left stop = (failed, execution) ∧
          (∀ cell, execution ≠ .value cell) ∧
          Session.inTurn host.executeLoaded (load :: later) host.newSession =
            ((Session.inTurn host.executeOwn later failed).1,
              execution :: (Session.inTurn host.executeOwn later failed).2) := by
  rcases host.runsToEnd_or_stopsAt host.settings.preload host.begun with
    ⟨ready, runs⟩ | ⟨done, path, rest, reached, left, stop, split, runs, stops⟩
  · refine .inl ⟨ready, runs, ?_⟩
    have prepared := host.prepare_newSession.trans (List.append_nil host.settings.preload ▸
      runs.runPreload_append [])
    have first : host.executeLoaded load host.newSession = host.executeOwn load ready :=
      Session.executeLoaded_of_prepared prepared
    have marked : (host.executeOwn load ready).1.preloaded = true :=
      (Session.executeOwn_preloaded _ _ load ready).trans runs.preloaded
    simp only [Session.inTurn]
    rw [first, inTurn_of_begun later marked]
  · refine .inr ⟨done, path, rest, reached, left, stop, split, runs, stops,
      fun ready => split ▸ not_runsToEnd runs stops ready,
      (Session.stopped host.settings.tapOnFault left stop).1,
      (Session.stopped host.settings.tapOnFault left stop).2, rfl,
      stopped_ne_value _ left stop, ?_⟩
    have prepared : host.newSession.prepare host.fuel (host.settings.preload.map host.load) =
        (left, some stop) := by
      rw [prepare_newSession, split, runs.runPreload_append, stops.runPreload]
    have first : host.executeLoaded load host.newSession =
        Session.stopped host.settings.tapOnFault left stop :=
      Session.executeLoaded_of_stopped prepared
    have marked : (Session.stopped host.settings.tapOnFault left stop).1.preloaded = true :=
      (Session.stopped_preloaded _ left stop).trans (stops.preloaded.trans runs.preloaded)
    simp only [Session.inTurn]
    rw [first, inTurn_of_begun later marked]

/-- A host whose preload file does not exist. -/
def missingHost : Host :=
  { settings := { preload := [Text.ofString "lib.s"] }, content := fun _ => none, fuel := 10 }

/-- The second execution on a machine of the `missingHost` gives a value, though the preload file
was never run. -/
theorem value_without_preload :
    (Session.inTurn missingHost.executeLoaded
        (List.replicate 2 (·.load { code := #[{ opcode := .push }], stop := 1 }))
        missingHost.newSession).2 = [.failed (.load .notFound), .value ⟨11⟩] ∧
      ∀ ready, ¬ missingHost.RunsToEnd missingHost.settings.preload missingHost.begun ready := by
  refine ⟨by decide +kernel, ?_⟩
  rintro ready (_ | ⟨loaded, -, -⟩)
  cases loaded

end Host

end ScriptEngine
