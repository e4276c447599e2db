/-
This file lists the options and commands of the engine's command line. An option with a
value has a second name, with a point behind it, that puts the value back to zero; a switch
has a second name, with an exclamation mark before it, that turns it off; an option that
collects values can be given more than once. The options about logging are accepted, and
change nothing that a program can show.
-/

import ScriptEngine.Command

namespace ScriptEngine

/-- What a command line asks for. Fields that were not given are at their zero. -/
structure Options where
  trace : Bool := false
  tap : Bool := false
  frameLimit : Int64 := 0
  stackCapacity : Int64 := 0
  jobs : Int64 := 0
  configs : List Text := []
  preload : List Text := []
  runPath : Text := []
  listPath : Text := []
  checkPaths : List Text := []
  buildInput : Text := []
  buildOutput : Text := []
  interactive : Bool := false
  deriving DecidableEq

namespace Options

/-- Commands on options, by name. -/
abbrev Entries := List (Text × Command Options)

/-! ### Sorts of options -/

/-- An option that takes a 64-bit integer. -/
def integerOption (name : Text) (set : Int64 → Options → Options) : Entries :=
  [(name, .change [.integer 64] fun
      | [.integer value], options => set (Int64.ofInt value) options
      | _, options => options),
   (name ++ [46], .change [] fun _ => set 0)]

/-- An option that takes a text. -/
def textOption (name : Text) (set : Text → Options → Options) : Entries :=
  [(name, .change [.text] fun
      | [.text value], options => set value options
      | _, options => options),
   (name ++ [46], .change [] fun _ => set [])]

/-- An option that is on or off. -/
def switchOption (name : Text) (set : Bool → Options → Options) : Entries :=
  [(name, .change [] fun _ => set true), (33 :: name, .change [] fun _ => set false)]

/-- An option that collects texts. -/
def listOption (name : Text) (add : Text → Options → Options) : Entries :=
  [(name, .change [.text] fun
      | [.text value], options => add value options
      | _, options => options)]

/-- An option that changes nothing but has a description. -/
def quietOption (name description : Text) : Entries :=
  [(name, { Command.change [] fun _ options => options with description })]

/-! ### The tables -/

/-- The options about logging. -/
def logOptions : Entries :=
  quietOption "-log-debug" "set log level to debug" ++
  quietOption "-log-info" "set log level to info" ++
  quietOption "-log-warn" "set log level to warn" ++
  quietOption "-log-error" "set log level to error" ++
  switchOption "-log-json" (fun _ options => options) ++
  textOption "-log-file" (fun _ options => options)

/-- The options that settings are made from. -/
def settingOptions : Entries :=
  switchOption "-trace" (fun value options => { options with trace := value }) ++
  switchOption "-tap" (fun value options => { options with tap := value }) ++
  integerOption "-frame-limit" (fun value options => { options with frameLimit := value }) ++
  integerOption "-stack-capacity" (fun value options => { options with stackCapacity := value }) ++
  integerOption "-jobs" (fun value options => { options with jobs := value }) ++
  listOption "-config" (fun path options =>
    { options with configs := options.configs ++ [path] }) ++
  listOption "-preload" (fun path options => { options with preload := options.preload ++ [path] })

/-- The command that names a program to assemble and the place of its image. -/
def buildCommand : Command Options :=
  let command : Command Options := .change [.text, .text] fun
    | [.text input, .text output], options =>
      { options with buildInput := input, buildOutput := output }
    | _, options => options
  { command with description := "assemble a program and write its image" }

/-- The commands that say what to do. -/
def taskCommands : Entries :=
  textOption "run" (fun path options => { options with runPath := path }) ++
  textOption "dis" (fun path options => { options with listPath := path }) ++
  switchOption "repl" (fun value options => { options with interactive := value }) ++
  listOption "check" (fun path options =>
    { options with checkPaths := options.checkPaths ++ [path] }) ++
  ([("build", buildCommand)] : Entries)

/-- The options that a host with tasks of its own offers. -/
def optionTable : CommandTable Options := .ofList (logOptions ++ settingOptions)

/-- All options and commands of the command line. -/
def commandTable : CommandTable Options := .ofList (logOptions ++ settingOptions ++ taskCommands)

/-! ### Tasks -/

/-- What a command line is for. -/
inductive Task where
  | run (path : Text)
  | build (input output : Text)
  | list (path : Text)
  | check (paths : List Text)
  | interactive
  | usage
  deriving DecidableEq

/-- The programs that a task loads. -/
def Task.programs : Task → List Text
  | .run path | .list path | .build path _ => [path]
  | .check paths => paths
  | .interactive | .usage => []

/-- The task that options ask for; of several the first in this order. -/
def task (options : Options) : Task :=
  if options.runPath ≠ [] then .run options.runPath
  else if options.buildInput ≠ [] then .build options.buildInput options.buildOutput
  else if options.listPath ≠ [] then .list options.listPath
  else if options.checkPaths ≠ [] then .check options.checkPaths
  else if options.interactive then .interactive
  else .usage

end Options

end ScriptEngine
