/-
This file lets the programs of a batch run side by side. Each program has a worker. The workers are
started in the order of the paths, each when a slot is free, and from then on take their turns in
any order: a worker loads its program, makes a machine of its own, moves on it until the execution
is over, notes the error if there is one, and gives its slot back. A turn is as small as one move of
a machine. If the machine of a worker is not able to go on, that ends the batch at once.
-/

import ScriptEngine.Runner.Host
import ScriptEngine.Runner.Slots

namespace ScriptEngine

/-! ### Executions move by move -/

/-- Where the execution of a program stands. -/
inductive Phase where
  /-- These preload programs come next, and after them the program. -/
  | between (preload : List (Except LoadError Program))
  /-- A preload program runs in front of others, or the program itself runs. -/
  | running (rest? : Option (List (Except LoadError Program))) (fuel : Nat)
    (pending : List Activation)
  | ended (execution : Execution)

/-- What a run comes to whose moves have ended. Leaving inside a function that the host entered
counts as reaching the end. -/
def Machine.settled {View : Type} : Outcome × View × Machine → Outcome × View × Machine
  | (.failed (.script fault), view, machine) =>
    if fault.cause = .leave then (.finished none, view, { machine with current := machine.stop })
    else (.failed (.script fault), view, machine)
  | ended => ended

/-- A session behind a run, and why that has not come to its end. -/
def Session.behind (session : Session) : Machine.Outcome × Array Text × Machine →
    Session × Option Session.Stop
  | (.finished _, trace, machine) => ({ session with machine, trace }, none)
  | (.failed (.breakdown breakdown), trace, machine) =>
    ({ session with machine, trace }, some (.broken breakdown))
  | (.failed fault, trace, machine) =>
    ({ session with machine, trace }, some (.error (.fault fault)))
  | (.outOfFuel, trace, machine) => ({ session with machine, trace }, some .outOfFuel)

namespace Host

/-- What follows the run of a preload program in front of others, or of the program itself. -/
def proceed (host : Host) (rest? : Option (List (Except LoadError Program))) :
    Session × Option Session.Stop → Session × Phase
  | (session, some stop) =>
    let (session, execution) := session.stopped host.settings.tapOnFault stop
    (session, .ended execution)
  | (session, none) =>
    match rest? with
    | some rest => ({ session with machine := session.machine.reset }, .between rest)
    | none =>
      let (cell, machine) := session.machine.takeResult
      ({ session with machine }, .ended (.value cell))

/-- The beginning of an execution: the preload programs come first, unless they were begun
before. -/
def begin (host : Host) (session : Session) : Session × Phase :=
  if session.preloaded then (session, .between [])
  else ({ session with preloaded := true }, .between (host.settings.preload.map host.load))

/-- One step of the execution of a program. -/
def step (host : Host) (program : Program) (session : Session) : Phase → Session × Phase
  | .between [] =>
    ({ session with machine := session.machine.load program }, .running none host.fuel [])
  | .between (.ok loaded :: rest) =>
    ({ session with machine := session.machine.load loaded }, .running (some rest) host.fuel [])
  | .between (.error error :: rest) =>
    host.proceed (some rest) (session, some (.error (.load error)))
  | .running rest? 0 _ => host.proceed rest? (session, some .outOfFuel)
  | .running rest? (fuel + 1) pending =>
    let trace :=
      if session.machine.aboutToExecute pending then
        Session.observe session.traced session.machine session.trace
      else session.trace
    match Machine.advance pending session.machine with
    | .ok (.running pending) machine =>
      ({ session with machine, trace }, .running rest? fuel pending)
    | .ok (.finished result) machine =>
      host.proceed rest? (session.behind (Machine.settled (.finished result, trace, machine)))
    | .error fault machine =>
      host.proceed rest? (session.behind (Machine.settled (.failed fault, trace, machine)))
  | .ended execution => (session, .ended execution)

end Host

/-! ### Workers -/

/-- Where the worker of a program stands. -/
inductive Stage where
  | loading
  | loaded (program : Program)
  /-- Its program is executed on the machine with this number. -/
  | executing (program : Program) (machine : Nat) (phase : Phase)
  /-- It is done but for the slot. -/
  | leaving
  | gone

/-- Whether a worker has given its slot back. -/
def Stage.isGone : Stage → Bool
  | .gone => true
  | _ => false

/-- A machine of a batch, with the worker that has made it. -/
structure Workplace where
  worker : Nat
  session : Session
  deriving DecidableEq

/-- A batch under way: its slots, the workers started so far in the order of their paths, the
machines made so far, one place for the error of each path, and which programs were loaded. -/
structure Batch where
  slots : Slots
  workers : Array Stage := #[]
  machines : Array Workplace := #[]
  errors : Array (Option ExecutionError)
  loads : Array Nat := #[]
  /-- A worker was not able to go on, and nothing goes on any more. -/
  collapsed : Bool := false

/-- Whose turn it is. -/
inductive Turn where
  /-- The next worker is started. -/
  | start
  | work (worker : Nat)
  deriving DecidableEq

namespace Batch

/-- A batch before its first turn. -/
def new (jobs : Int) (paths : List Text) : Batch :=
  { slots := .new jobs, errors := Array.replicate paths.length none }

/-- Moves a worker to a stage. -/
def move (batch : Batch) (worker : Nat) (stage : Stage) : Batch :=
  { batch with workers := batch.workers.setIfInBounds worker stage }

/-- Notes the error of a worker. -/
def fail (batch : Batch) (worker : Nat) (error : ExecutionError) : Batch :=
  { batch with errors := batch.errors.setIfInBounds worker (some error) }

/-- How many workers hold a slot. -/
def running (batch : Batch) : Nat :=
  batch.workers.countP (!·.isGone)

/-- All workers were started and have gone. -/
def Returned (paths : List Text) (batch : Batch) : Prop :=
  batch.collapsed = false ∧ batch.workers = Array.replicate paths.length .gone

/-- The errors of a batch that has returned, each with its path, in the order of the paths. -/
def joined (paths : List Text) (batch : Batch) : List (Text × ExecutionError) :=
  (paths.zip batch.errors.toList).filterMap fun (path, error?) => error?.map (path, ·)

end Batch

namespace Host

/-- The turn of a worker at a stage. One whose execution does not end has no turn any more. -/
def work (host : Host) (paths : List Text) (batch : Batch) (worker : Nat) :
    Stage → Option Batch
  | .loading => do
    let path ← paths[worker]?
    let batch := { batch with loads := batch.loads.push worker }
    match host.load path with
    | .error error => return (batch.fail worker (.load error)).move worker .leaving
    | .ok program => return batch.move worker (.loaded program)
  | .loaded program =>
    let (session, phase) := host.begin host.newSession
    let machine := batch.machines.size
    let batch := { batch with machines := batch.machines.push ⟨worker, session⟩ }
    some (batch.move worker (.executing program machine phase))
  | .executing _ _ (.ended execution) =>
    match execution with
    | .value _ => some (batch.move worker .leaving)
    | .failed error => some ((batch.fail worker error).move worker .leaving)
    | .broken _ => some { batch with collapsed := true }
    | .outOfFuel => none
  | .executing program machine phase => do
    let place ← batch.machines[machine]?
    let (session, phase) := host.step program place.session phase
    let batch :=
      { batch with machines := batch.machines.setIfInBounds machine { place with session } }
    return batch.move worker (.executing program machine phase)
  | .leaving => do
    let slots ← batch.slots.release?
    return { batch with slots }.move worker .gone
  | .gone => none

/-- One turn of a batch, if it is possible. -/
def turn (host : Host) (paths : List Text) (batch : Batch) : Turn → Option Batch
  | .start =>
    if batch.collapsed ∨ paths.length ≤ batch.workers.size then none
    else do
      let slots ← batch.slots.acquire?
      return { batch with slots, workers := batch.workers.push .loading }
  | .work worker =>
    if batch.collapsed then none
    else do host.work paths batch worker (← batch.workers[worker]?)

/-- The batch after some turns, if they are possible one after another. -/
def follow (host : Host) (paths : List Text) : List Turn → Batch → Option Batch
  | [], batch => some batch
  | turn :: rest, batch => do host.follow paths rest (← host.turn paths batch turn)

end Host

end ScriptEngine
