/-
This file is the engine's command line as a function: from words, files and standard input
to an exit code, what is printed, and the file that is written. A command line that cannot
be understood and settings that cannot be told end with one code, and everything that goes
wrong later with another.
-/

import ScriptEngine.Assembly.Listing
import ScriptEngine.Runner.FileTree
import ScriptEngine.Runner.Host

namespace ScriptEngine

/-- What a command line comes to. -/
structure Report where
  exitCode : Nat := 0
  output : Text := []
  /-- The path of a file to be written, and its content. -/
  written : Option (Text × Text) := none
  deriving DecidableEq

namespace Report

/-- The exit code for a problem that is reported. -/
def failure : Nat := 255

/-- The exit code for what the engine cannot deal with. -/
def collapse : Nat := 2

/-- The exit code of an execution. -/
def codeOf : Execution → Nat
  | .value _ => 0
  | .failed _ => failure
  | .broken _ | .outOfFuel => collapse

/-- What a machine has printed. -/
def printed (machine : Machine) : Text :=
  machine.output.toList.flatMap fun line => line ++ [10]

end Report

namespace CommandLine

open Report

/-- What a command line can use: files by path, standard input, and how long programs may run. -/
structure Surroundings where
  content : Text → Option Text
  /-- Whether a file can be written at a path. -/
  writable : Text → Bool := fun _ => true
  input : Text := []
  /-- Where configuration files are looked for. -/
  directories : List Text := []
  processors : Int64 := 1
  fuel : Nat

/-- The surroundings that a tree of files makes. -/
def Surroundings.ofTree (tree : FileTree) (input : Text) (directories : List Text) (fuel : Nat) :
    Surroundings :=
  { content := tree.content, writable := tree.writable, input, directories, fuel }

/-! ### Tasks -/

/-- Runs a program. -/
def run (host : Host) (path : Text) : Report :=
  let entry := host.runFile path
  { exitCode := codeOf entry.execution, output := printed entry.session.machine }

/-- Writes the image of a program. -/
def build (host : Host) (writable : Text → Bool) (input output : Text) : Report :=
  match host.load input with
  | .error _ => { exitCode := failure }
  | .ok program =>
    match host.codec.encode program.snapshot with
    | .error _ => { exitCode := failure }
    | .ok image =>
      if writable output then { written := some (output, image) } else { exitCode := failure }

/-- Prints the listing of a program. -/
def list (host : Host) (path : Text) : Report :=
  match host.load path with
  | .error _ => { exitCode := failure }
  | .ok program =>
    match program.snapshot.listing with
    | .error _ => { exitCode := collapse }
    | .ok listing => { output := listing }

/-- Runs a batch of programs. -/
def check (host : Host) (paths : List Text) : Report :=
  let entries := host.runBatch paths
  { exitCode := (entries.map fun entry => codeOf entry.execution).foldl
      (fun code other => if code = collapse ∨ other = 0 then code else other) 0
    output := entries.flatMap fun entry => printed entry.session.machine }

/-! ### Interactive use -/

/-- The blocks of lines that blank lines end. Lines behind the last blank line belong to none. -/
def blocksFrom : (block : List Text) → List Text → List (List Text)
  | _, [] => []
  | block, line :: rest =>
    if Text.trim line ≠ [] then blocksFrom (block ++ [line]) rest
    else if block = [] then blocksFrom [] rest
    else block :: blocksFrom [] rest

/-- Executes blocks one after another on one machine, and prints the result of each that has
one. -/
def interact (host : Host) : List Text → Session → Report
  | [], _ => {}
  | source :: rest, session =>
    match Assembly.assemble source with
    | .error _ => interact host rest session
    | .ok program =>
      let (session, execution) :=
        host.execute program { session with machine := session.machine.reset }
      let shown := printed session.machine
      let session := { session with machine := { session.machine with output := #[] } }
      match execution with
      | .value cell =>
        let others := interact host rest session
        { others with output := shown ++ session.machine.heap.text cell ++ 10 :: others.output }
      | .failed _ =>
        let others := interact host rest session
        { others with output := shown ++ others.output }
      | .broken _ | .outOfFuel => { exitCode := collapse, output := shown }

/-- Reads blocks from standard input and executes them. -/
def interactive (host : Host) (input : Text) : Report :=
  interact host ((blocksFrom [] input.lines).map (Text.join [10])) host.newSession

/-! ### Command lines -/

/-- What a task comes to. -/
def perform (around : Surroundings) (host : Host) : Options.Task → Report
  | .run path => run host path
  | .build input output => build host around.writable input output
  | .list path => list host path
  | .check paths => check host paths
  | .interactive => interactive host around.input
  | .usage => { output := Options.commandTable.usage }

/-- The sources of the settings that options ask for. -/
def sourcesOf (around : Surroundings) (options : Options) : SettingSources :=
  { options, files := configSources options around.directories around.content }

/-- The host that settings make. -/
def hostOf (around : Surroundings) (settings : Settings) : Host :=
  { settings, content := around.content, fuel := around.fuel }

/-- What a command line comes to. -/
def report (around : Surroundings) (words : List Text) : Report :=
  match Options.commandTable.execute words {} with
  | (_, .quit) => { output := Options.commandTable.usage }
  | (_, .failed _) => { exitCode := collapse }
  | (options, .done) =>
    match (sourcesOf around options).settings around.processors with
    | .error _ => { exitCode := collapse }
    | .ok settings => perform around (hostOf around settings) options.task

/-! ### What a command line reads -/

/-- The options that the words of a command line give. -/
def optionsOf (words : List Text) : Options :=
  (Options.commandTable.execute words {}).1

/-- The configuration files that a command line may read. -/
def configFiles (directories : List Text) (words : List Text) : List Text :=
  (optionsOf words).configs ++ configPlaces directories

/-- The programs that a command line may read, given its configuration files. -/
def programFiles (around : Surroundings) (words : List Text) : List Text :=
  let options := optionsOf words
  let preload := match (sourcesOf around options).preload with
    | .ok paths => paths
    | .error _ => []
  preload ++ options.task.programs

/-- Whether a command line reads standard input. -/
def readsInput (words : List Text) : Bool :=
  (optionsOf words).task = .interactive

end CommandLine

end ScriptEngine
