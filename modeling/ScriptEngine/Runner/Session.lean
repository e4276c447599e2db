/-
This file executes programs one after another on a machine. The first execution runs the
preload programs before its own. An execution that fails may open a debugging session on the
machine, and always leaves it reset, so that the next one starts clean; what programs have
bound in the global scope stays.
-/

import ScriptEngine.Machine.Control
import ScriptEngine.Machine.Run
import ScriptEngine.Runner.Loading
import ScriptEngine.Runner.Settings
import ScriptEngine.Tap.Globals

namespace ScriptEngine

/-- A debugging session that was opened: over what, with which names, and at which address. -/
structure Tap where
  title : Text
  names : List Text
  pc : Int64
  deriving DecidableEq

/-- A machine, and what its executions have shown. -/
structure Session where
  machine : Machine
  preloaded : Bool := false
  traced : Bool := false
  trace : Array Text := #[]
  taps : Array Tap := #[]
  deriving DecidableEq

/-- Why an execution has failed. -/
inductive ExecutionError where
  | load (error : LoadError)
  | fault (fault : Fault)
  deriving DecidableEq

/-- How an execution has ended. -/
inductive Execution where
  | value (cell : CellId)
  | failed (error : ExecutionError)
  /-- The machine was not able to go on; it is left as it stands. -/
  | broken (breakdown : Breakdown)
  | outOfFuel
  deriving DecidableEq

namespace Session

/-- A session on a new machine. -/
def new (settings : Settings) : Session :=
  { machine := (Machine.new settings.frameLimit).install, traced := settings.traceExecution }

/-- Adds a line to the trace, if one is kept. -/
def observe (traced : Bool) (machine : Machine) (trace : Array Text) : Array Text :=
  if traced then trace.push machine.traceLine else trace

/-- Why a run has not come to its end. -/
inductive Stop where
  | error (error : ExecutionError)
  | broken (breakdown : Breakdown)
  | outOfFuel
  deriving DecidableEq

/-- Loads something and runs it to its end. -/
def run (fuel : Nat) (load : Machine → Machine) (session : Session) : Session × Option Stop :=
  let trace := session.trace
  let traced := session.traced
  let (outcome, trace, machine) := Machine.run (observe traced) fuel trace (load session.machine)
  let session := { session with machine, trace }
  match outcome with
  | .finished _ => (session, none)
  | .failed (.breakdown breakdown) => (session, some (.broken breakdown))
  | .failed fault => (session, some (.error (.fault fault)))
  | .outOfFuel => (session, some .outOfFuel)

/-- Runs preload programs, resetting the machine behind each. -/
def runPreload (fuel : Nat) :
    List (Except LoadError Program) → Session → Session × Option Stop
  | [], session => (session, none)
  | .error error :: _, session => (session, some (.error (.load error)))
  | .ok program :: rest, session =>
    match run fuel (·.load program) session with
    | (session, some stop) => (session, some stop)
    | (session, none) =>
      runPreload fuel rest { session with machine := session.machine.reset }

/-- Opens a debugging session on the machine, if settings ask for it. -/
def tapFault (tapOnFault : Bool) (session : Session) : Session :=
  match tapOnFault, session.machine.globals with
  | true, .ok globals =>
    { session with
      taps := session.taps.push ⟨"fault", globals.map Prod.fst, session.machine.current⟩ }
  | _, _ => session

/-- Ends an execution that has not come to its end. -/
def stopped (tapOnFault : Bool) (session : Session) : Stop → Session × Execution
  | .error error =>
    let session := tapFault tapOnFault session
    ({ session with machine := session.machine.reset }, .failed error)
  | .broken breakdown => (session, .broken breakdown)
  | .outOfFuel => (session, .outOfFuel)

/-- Runs the preload programs, unless that was begun before. -/
def prepare (fuel : Nat) (preload : List (Except LoadError Program)) (session : Session) :
    Session × Option Stop :=
  if session.preloaded then (session, none)
  else runPreload fuel preload { session with preloaded := true }

/-- Executes what is loaded onto the machine, and takes its result off it. -/
def executeLoaded (fuel : Nat) (tapOnFault : Bool) (preload : List (Except LoadError Program))
    (load : Machine → Machine) (session : Session) : Session × Execution :=
  match session.prepare fuel preload with
  | (session, some stop) => stopped tapOnFault session stop
  | (session, none) =>
    match run fuel load session with
    | (session, some stop) => stopped tapOnFault session stop
    | (session, none) =>
      let (cell, machine) := session.machine.takeResult
      ({ session with machine }, .value cell)

end Session

end ScriptEngine
