/-
This file runs command lines. A command line is read from left to right: a name, then one
word for each parameter of the command of that name. A command may bring commands of its
own, which can be named from there on to the end of the line. Reading stops at the first
word that cannot be understood and at the first command that fails.
-/

import ScriptEngine.Command.Argument
import ScriptEngine.Text.Blank

namespace ScriptEngine

/-- What an action answers. -/
inductive Reply where
  /-- Nothing: the action has no answer. -/
  | silent
  /-- That it went well. No command line goes on behind this answer. -/
  | success
  | failure (message : Text)
  /-- That the command line ends here. -/
  | quit
  deriving DecidableEq

/-- What a command does to a state. -/
structure CommandAction (State : Type) where
  parameters : List Parameter := []
  run : List Argument → State → State × Reply

/-- A command. Where a table has no command for a name, the name is only reserved. -/
structure Command (State : Type) where
  action : Option (CommandAction State) := none
  description : Text := []
  aliases : List Text := []
  subs : List (Text × Option (Command State)) := []

/-- Commands by name. -/
abbrev CommandTable (State : Type) := List (Text × Option (Command State))

/-- What is wrong with a command line. -/
inductive CommandError where
  | unknown (name : Text)
  | argument (error : ArgumentError)
  | duplicatedSub (name sub : Text)
  | failed (message : Text)
  /-- The name is reserved and there is no command. -/
  | reserved
  /-- The action has answered that it went well. -/
  | success
  deriving DecidableEq

/-- The message of a command error. Some have none, since they are mistakes in the table. -/
def CommandError.message? : CommandError → Option Text
  | .unknown name => some (Text.ofString "unknown command: " ++ name)
  | .argument .nestedOptional => none
  | .argument error => some error.message
  | .duplicatedSub name sub =>
    some (Text.ofString "duplicated sub command: " ++ name ++ Text.ofString " " ++ sub)
  | .failed message => some message
  | .reserved | .success => none

namespace Command

variable {State : Type}

/-- How many words a command takes behind its name. -/
def arity (command : Command State) : Nat :=
  (command.action.map fun action => action.parameters.length).getD 0

/-- A command that only changes the state. -/
def change (parameters : List Parameter) (run : List Argument → State → State) :
    Command State :=
  { action := some { parameters, run := fun arguments state => (run arguments state, .silent) } }

end Command

namespace CommandTable

variable {State : Type}

/-! ### Making a table -/

/-- Why a command cannot be defined. -/
inductive DefineError where
  | duplicated (name : Text)
  /-- There is no command to define. -/
  | reserved
  deriving DecidableEq

/-- The message of a definition error; the second one has none. -/
def DefineError.message? : DefineError → Option Text
  | .duplicated name => some (Text.ofString "duplicated command " ++ name)
  | .reserved => none

/-- Adds names for one command, up to the first that is taken. -/
def defineNames (command : Option (Command State)) :
    List Text → CommandTable State → CommandTable State × Option DefineError
  | [], table => (table, none)
  | name :: names, table =>
    if (table.lookup name).isSome then (table, some (.duplicated name))
    else defineNames command names (table ++ [(name, command)])

/-- Adds a command under its name and its aliases. What was added before an error stays. -/
def define (table : CommandTable State) (name : Text) (command : Option (Command State)) :
    CommandTable State × Option DefineError :=
  match command with
  | some known => defineNames (some known) (name :: known.aliases) table
  | none =>
    match defineNames none [name] table with
    | (table, some error) => (table, some error)
    | (table, none) => (table, some .reserved)

/-- The command that ends a command line, so that usage can be printed instead. -/
def help : Command State :=
  { action := some { run := fun _ state => (state, .quit) }
    description := "print this usage"
    aliases := ["help", "-help", "--help"] }

/-- The table that every other one starts from: it has help and nothing else. -/
def initial : CommandTable State :=
  (define [] "-h" (some help)).1

/-- The initial table with commands added whose names are known to be new. -/
def ofList (commands : List (Text × Command State)) : CommandTable State :=
  commands.foldl (fun table (name, command) => (define table name (some command)).1) initial

/-- A table with the commands of a command added. -/
def extend (name : Text) :
    List (Text × Option (Command State)) → CommandTable State →
      Except CommandError (CommandTable State)
  | [], table => return table
  | (sub, command) :: rest, table =>
    if (table.lookup sub).isSome then throw (.duplicatedSub name sub)
    else extend name rest (table ++ [(sub, command)])

/-! ### Running a command line -/

/-- How a command line has ended. -/
inductive Ending where
  | done
  | quit
  | failed (error : CommandError)
  deriving DecidableEq

/-- What one command comes to: an error or an early end, or that the line goes on. -/
def perform (command : Command State) (words : List Text) (state : State) :
    State × Option Ending :=
  match command.action with
  | none => (state, none)
  | some action =>
    match Parameter.arguments action.parameters words with
    | .error error => (state, some (.failed (.argument error)))
    | .ok arguments =>
      match action.run arguments state with
      | (state, .silent) => (state, none)
      | (state, .success) => (state, some (.failed .success))
      | (state, .failure message) => (state, some (.failed (.failed message)))
      | (state, .quit) => (state, some .quit)

/-- Runs a command line. -/
def execute (table : CommandTable State) (words : List Text) (state : State) : State × Ending :=
  match words with
  | [] => (state, .done)
  | word :: rest =>
    let name := Text.trim word
    match table.lookup name with
    | none => (state, .failed (.unknown name))
    | some none => (state, .failed .reserved)
    | some (some command) =>
      match perform command rest state with
      | (state, some ending) => (state, ending)
      | (state, none) =>
        match extend name command.subs table with
        | .error error => (state, .failed error)
        | .ok extended => execute extended (rest.drop command.arity) state
termination_by words.length
decreasing_by
  simp only [List.length_cons, List.length_drop]
  omega

/-! ### Tables in memory -/

/-- Command tables, each at an address. -/
abbrev TableMemory (State : Type) := Array (CommandTable State)

/-- The table at an address. -/
def tableAt (memory : TableMemory State) (address : Nat) : CommandTable State :=
  memory.getD address []

/-- Adds the commands of a command to the table at an address, up to the first whose name is
taken. -/
def extendAt (name : Text) (address : Nat) :
    List (Text × Option (Command State)) → TableMemory State →
      TableMemory State × Option CommandError
  | [], memory => (memory, none)
  | (sub, command) :: rest, memory =>
    let table := tableAt memory address
    if (table.lookup sub).isSome then (memory, some (.duplicatedSub name sub))
    else extendAt name address rest (memory.setIfInBounds address (table ++ [(sub, command)]))

/-- Runs a command line on the table at an address. In front of a command that brings others the
table is copied, and the line goes on with the copy. -/
def executeAt (memory : TableMemory State) (address : Nat) (words : List Text) (state : State) :
    TableMemory State × State × Ending :=
  match words with
  | [] => (memory, state, .done)
  | word :: rest =>
    let table := tableAt memory address
    let name := Text.trim word
    match table.lookup name with
    | none => (memory, state, .failed (.unknown name))
    | some none => (memory, state, .failed .reserved)
    | some (some command) =>
      match perform command rest state with
      | (state, some ending) => (memory, state, ending)
      | (state, none) =>
        if command.subs.isEmpty then executeAt memory address (rest.drop command.arity) state
        else
          match extendAt name memory.size command.subs (memory.push table) with
          | (extended, some error) => (extended, state, .failed error)
          | (extended, none) =>
            executeAt extended memory.size (rest.drop command.arity) state
termination_by words.length
decreasing_by
  all_goals
    simp only [List.length_cons, List.length_drop]
    omega

/-! ### Usage -/

/-- A name, its aliases and its description on a line. -/
def usageLine (depth : Nat) (name : Text) (aliases : List Text) (description : Text) : Text :=
  (List.replicate depth (Text.ofString "  ")).flatten ++ name ++
    (if aliases = [] then [] else
      Text.ofString " (" ++ Text.join ", " aliases ++ Text.ofString ")") ++
    (if description = [] then [] else 9 :: description) ++ [10]

/-- Entries by name in the order of their bytes, put together. -/
def sorted (entries : List (Text × Text)) : Text :=
  (entries.mergeSort fun left right => decide (left.1 ≤ right.1)).flatMap Prod.snd

mutual

/-- The lines about a command: its own, and those of the commands it brings. -/
def usageOf (depth : Nat) (name : Text) : Command State → Text
  | ⟨_, description, aliases, subs⟩ =>
    usageLine depth name aliases description ++ sorted (usageEntries (depth + 1) subs)

/-- The lines about the commands of a table, each under its own name and not under its aliases. -/
def usageEntries (depth : Nat) : List (Text × Option (Command State)) → List (Text × Text)
  | [] => []
  | (_, none) :: rest => usageEntries depth rest
  | (name, some command) :: rest =>
    if command.aliases.contains name then usageEntries depth rest
    else (name, usageOf depth name command) :: usageEntries depth rest

end

/-- The usage of all commands of a table, in the order of their names. -/
def usage (table : CommandTable State) : Text :=
  sorted (usageEntries 0 table)

end CommandTable

end ScriptEngine
