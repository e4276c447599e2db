/-
This file lists what a debugging session sees of a machine: its registers and stacks as
values, and three functions to look at its code and its names. Stack tops come last.
-/

import ScriptEngine.Assembly.Listing
import ScriptEngine.Machine.Control
import ScriptEngine.Tap.View

namespace ScriptEngine.Machine

/-- An operand as a dictionary; a key is shown where there is one. -/
def operandGlobal (operand : Operand) : HostValue :=
  .record ((if operand.key = [] then [] else [(Text.ofString "key", .text operand.key)]) ++
    [(Text.ofString "value", .cell operand.cell)])

/-- A frame as a dictionary. -/
def frameGlobal (frame : Frame) : HostValue :=
  .record
    [(Text.ofString "PC", .integer frame.pc.toInt),
     (Text.ofString "Flags", .integer frame.flags.bits),
     (Text.ofString "OperandMark", .integer frame.operandMark),
     (Text.ofString "ThisMark", .integer frame.receiverMark)]

/-- The names of the flags that are set. -/
def flagNames (flags : Flags) : List Text :=
  (if flags.zero then [Text.ofString "zero"] else []) ++
    if flags.construct then [Text.ofString "constructor_call"] else []

/-- What a debugging session can name, in the order of the names. There has to be a current
receiver. -/
def globals (machine : Machine) : Except Fault (List (Text × HostValue)) :=
  match receiver machine with
  | .error fault _ => throw fault
  | .ok this _ => return [
      ("ac", (machine.accumulator.map HostValue.cell).getD .none),
      ("disasm", .function),
      ("end", .integer machine.stop.toInt),
      ("flags", .list ((flagNames machine.flags).map .text)),
      ("frames", .list (machine.frames.toList.map frameGlobal)),
      ("listing", .function),
      ("lookup", .function),
      ("pc", .integer machine.current.toInt),
      ("stack", .list (machine.operands.toList.map operandGlobal)),
      ("start", .integer machine.start.toInt),
      ("this", .cell this),
      ("this_stack", .list (machine.receivers.toList.map .cell))]

/-- The trace form of the instruction at an address; empty outside the code. -/
def shownAt (machine : Machine) (pc : Int64) : Text :=
  ((machine.instructionAt? pc).map Instruction.shown).getD []

/-- The text of the value of a name, or the message that it has none. -/
def lookupText (machine : Machine) (name : Text) : Except Fault Text :=
  if machine.attached then
    match machine.scopes.get? name with
    | some cell => return machine.heap.text cell
    | none => return (Cause.unbound name).message
  else throw (.breakdown .noScopes)

end ScriptEngine.Machine
