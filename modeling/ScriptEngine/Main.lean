/-
This file is the engine as a command. All it does is to fetch what a command line needs,
hand it over, and carry out the report: print, write a file, and end with a code.
-/

import ScriptEngine.Runner.CommandLine

namespace ScriptEngine.Main

/-- The string that a text spells, if the text is well-formed. -/
def stringOf? (text : Text) : Option String :=
  String.fromUTF8? ⟨text.toArray⟩

/-- What a file holds, if it can be read. -/
def readFile (path : Text) : IO (Option Text) := do
  match stringOf? path with
  | none => return none
  | some path =>
    try return some (← IO.FS.readBinFile path).toList
    catch _ => return none

/-- The files at paths that can be read, by path. -/
def readFiles (paths : List Text) : IO (List (Text × Text)) :=
  paths.filterMapM fun path => do return (← readFile path).map fun content => (path, content)

/-- Reads a stream to its end. -/
partial def readStream (stream : IO.FS.Stream) (read : ByteArray) : IO ByteArray := do
  let chunk ← stream.read 65536
  if chunk.isEmpty then return read else readStream stream (read ++ chunk)

/-- The directories where configuration files are looked for. -/
def directories : IO (List Text) := do
  let working := (← IO.currentDir).toString
  let user := match ← IO.getEnv "XDG_CONFIG_HOME", ← IO.getEnv "HOME" with
    | some directory, _ => [directory]
    | none, some home => [home ++ "/.config"]
    | none, none => []
  return ([working] ++ user ++ ["/etc"]).map Text.ofString

/-- How many steps a run may take: more than any run will. -/
def fuel : Nat := Nat.pow 2 62

/-- Carries out a report. -/
def carryOut (report : Report) : IO UInt32 := do
  let output ← IO.getStdout
  output.write ⟨report.output.toArray⟩
  output.flush
  match report.written with
  | none => return report.exitCode.toUInt32
  | some (path, content) =>
    match stringOf? path with
    | none => return Report.failure.toUInt32
    | some path =>
      try
        IO.FS.writeBinFile path ⟨content.toArray⟩
        return report.exitCode.toUInt32
      catch _ => return Report.failure.toUInt32

end ScriptEngine.Main

open ScriptEngine in
/-- The engine as a command. Configuration files are fetched first, since they can name programs. -/
def main (arguments : List String) : IO UInt32 := do
  let words := arguments.map Text.ofString
  let directories ← Main.directories
  let configs ← Main.readFiles (CommandLine.configFiles directories words)
  let around : CommandLine.Surroundings :=
    { content := fun path => configs.lookup path, directories, fuel := Main.fuel }
  let programs ← Main.readFiles (CommandLine.programFiles around words)
  let input ← if CommandLine.readsInput words then Main.readStream (← IO.getStdin) .empty
    else pure .empty
  let content path := (configs ++ programs).lookup path
  Main.carryOut (CommandLine.report { around with content, input := input.toList } words)
