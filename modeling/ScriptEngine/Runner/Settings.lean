/-
This file makes settings out of options, configuration files and defaults. An option that is not
at its zero wins over every file; of the files the first that has a setting counts, and if
it says zero the default does. The files to preload are those of the options and then those of
all configuration files.
-/

import ScriptEngine.Config
import ScriptEngine.Runner.Options

namespace ScriptEngine

/-- The first value that is not zero. -/
def firstNonZero {Value : Type} [DecidableEq Value] (zero : Value) : List Value → Value
  | [] => zero
  | value :: rest => if value = zero then firstNonZero zero rest else value

/-! ### Files -/

/-- The names that configuration files have. -/
def configNames : List Text := ["grok.cue", ".grok.cue"]

/-- The places where configuration files are looked for, in the order of precedence. -/
def configPlaces (directories : List Text) : List Text :=
  directories.flatMap fun directory => configNames.map fun name => directory ++ 47 :: name

/-- The configuration files of a command line: those it names, whether they exist or not, and those
that are found. -/
def configPaths (options : Options) (directories : List Text) (content : Text → Option Text) :
    List Text :=
  options.configs ++ (configPlaces directories).filter fun path => (content path).isSome

/-- What a configuration file may hold. -/
def settingsSchema : Config.Schema :=
  let size : Config.Rule := .both .integer (.bounded .atLeast 0)
  [("trace_execution", .bool), ("stack_capacity", size), ("frame_limit", size),
   ("tap_on_fault", .bool), ("jobs", size), ("preload", .listOf .text)]

/-- The configuration files of a command line, read. -/
def configSources (options : Options) (directories : List Text) (content : Text → Option Text) :
    Except ConfigError Config.Sources :=
  Config.load (some settingsSchema) ((configPaths options directories content).map content)

/-! ### Settings -/

/-- Options, and configuration files that may be bad. A setting that needs no file is known all the
same. -/
structure SettingSources where
  options : Options
  files : Except ConfigError Config.Sources

namespace SettingSources

open Config (Value)

/-- The value of a setting in the files. -/
def lookup {Setting : Type} (sources : SettingSources) (name : Text) (zero : Setting)
    (read : Value → Option Setting) : Except ConfigError Setting := do
  return ((← (← sources.files).first [name] read).getD zero)

/-- A switch: on if its option is, else as the files say. -/
def switch (sources : SettingSources) (option : Bool) (name : Text) : Except ConfigError Bool :=
  if option then return true else sources.lookup name false Value.bool?

/-- An integer: the first that is not zero of its option, the files and the default. -/
def integer (sources : SettingSources) (option : Int64) (name : Text) (default : Int64) :
    Except ConfigError Int64 := do
  return firstNonZero 0 [option, ← sources.lookup name 0 Value.int64?, default]

/-- Whether each instruction is shown before it is executed. -/
def traceExecution (sources : SettingSources) : Except ConfigError Bool :=
  sources.switch sources.options.trace "trace_execution"

/-- Whether a debugging session is opened on a fault. -/
def tapOnFault (sources : SettingSources) : Except ConfigError Bool :=
  sources.switch sources.options.tap "tap_on_fault"

/-- How much room the stacks of a new machine have. -/
def stackCapacity (sources : SettingSources) : Except ConfigError Int64 :=
  sources.integer sources.options.stackCapacity "stack_capacity" 256

/-- How many calls may be open at a time; zero and below mean any number. -/
def frameLimit (sources : SettingSources) : Except ConfigError Int64 :=
  sources.integer sources.options.frameLimit "frame_limit" 0

/-- How many programs a batch runs at a time. -/
def jobs (sources : SettingSources) (processors : Int64) : Except ConfigError Int64 :=
  sources.integer sources.options.jobs "jobs" processors

/-- The programs that run on every machine before its first one. -/
def preload (sources : SettingSources) : Except ConfigError (List Text) := do
  let lists ← (← sources.files).all ["preload"] (Value.list? Value.text?)
  return sources.options.preload ++ lists.flatten

end SettingSources

/-- All settings. -/
structure Settings where
  traceExecution : Bool := false
  tapOnFault : Bool := false
  stackCapacity : Int64 := 256
  frameLimit : Int64 := 0
  jobs : Int64 := 1
  preload : List Text := []
  deriving DecidableEq

/-- All settings of a command line, if none of them needs a bad file. -/
def SettingSources.settings (sources : SettingSources) (processors : Int64) :
    Except ConfigError Settings := do
  return {
    traceExecution := ← sources.traceExecution
    tapOnFault := ← sources.tapOnFault
    stackCapacity := ← sources.stackCapacity
    frameLimit := ← sources.frameLimit
    jobs := ← sources.jobs processors
    preload := ← sources.preload }

end ScriptEngine
