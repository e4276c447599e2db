/-
This file is what a host does with programs: it loads them from files, executes them on
sessions, and runs batches of them. Each program of a batch has a machine of its own, so
none can tell in which order they run or how many run at a time; a batch is its outcomes in
the order of the paths.
-/

import ScriptEngine.Image.Cbor
import ScriptEngine.Runner.Session

namespace ScriptEngine

/-- What programs run in: settings, files by path, how long they may run, and how images are
written and read. -/
structure Host where
  settings : Settings
  content : Text → Option Text
  fuel : Nat
  codec : Image.Codec := Image.Cbor.codec

/-- What happened to one program of a batch. -/
structure BatchEntry where
  path : Text
  session : Session
  execution : Execution

/-- Whether a program of a batch has failed. -/
def BatchEntry.failed (entry : BatchEntry) : Bool :=
  match entry.execution with
  | .value _ => false
  | _ => true

namespace Host

/-- The program in a file. -/
def load (host : Host) (path : Text) : Except LoadError Program :=
  loadProgram host.codec path (host.content path)

/-- A session on a new machine. -/
def newSession (host : Host) : Session :=
  Session.new host.settings

/-- Executes what is loaded onto the machine of a session. -/
def executeLoaded (host : Host) (load : Machine → Machine) (session : Session) :
    Session × Execution :=
  session.executeLoaded host.fuel host.settings.tapOnFault (host.settings.preload.map host.load)
    load

/-- Executes a program on a session. -/
def execute (host : Host) (program : Program) (session : Session) : Session × Execution :=
  host.executeLoaded (·.load program) session

/-- Loads a program and executes it on a new machine. -/
def runFile (host : Host) (path : Text) : BatchEntry :=
  match host.load path with
  | .error error => { path, session := host.newSession, execution := .failed (.load error) }
  | .ok program =>
    let (session, execution) := host.execute program host.newSession
    { path, session, execution }

theorem runFile_of_load {host : Host} {path : Text} {program : Program}
    (loads : host.load path = .ok program) :
    host.runFile path =
      { path, session := (host.execute program host.newSession).1
        execution := (host.execute program host.newSession).2 } := by
  unfold runFile
  rw [loads]

theorem runFile_of_error {host : Host} {path : Text} {error : LoadError}
    (fails : host.load path = .error error) :
    host.runFile path =
      { path, session := host.newSession, execution := .failed (.load error) } := by
  unfold runFile
  rw [fails]

@[simp]
theorem path_runFile (host : Host) (path : Text) : (host.runFile path).path = path := by
  unfold runFile
  cases host.load path <;> rfl

/-- Runs the programs of a batch. -/
def runBatch (host : Host) (paths : List Text) : List BatchEntry :=
  paths.map host.runFile

end Host

end ScriptEngine
