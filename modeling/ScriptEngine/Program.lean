/-
This file is about programs. A program is a sequence of instructions, the bounds within
which a run executes them, and the functions its instructions push. Instructions refer to
those functions by number, so that two of them can push the same function, and a program
says all there is to say about itself without any memory to live in.
-/

import ScriptEngine.Heap.Function
import ScriptEngine.Program.Datum
import ScriptEngine.Program.Opcode
import ScriptEngine.Text.Utf8

namespace ScriptEngine

/-- One instruction. -/
structure Instruction (Reference : Type) where
  opcode : Opcode := .noop
  jump : Int64 := 0
  datum : Datum Reference := {}
  deriving DecidableEq

namespace Instruction

variable {Reference Other : Type}

instance : Inhabited (Instruction Reference) := ⟨{}⟩

/-- The same instruction with what its operand refers to replaced. -/
def map (change : Reference → Other) (instruction : Instruction Reference) :
    Instruction Other :=
  { instruction with datum := instruction.datum.map change }

/-- The trace form: the opcode in ten columns, the jump offset in five, then the operand. -/
def shown (instruction : Instruction Reference) : Text :=
  let opcode := instruction.opcode.name
  let jump := Text.ofInt instruction.jump.toInt
  Text.padRight 10 opcode.chars.length opcode ++ Text.padRight 5 jump.length jump ++
    instruction.datum.shown

end Instruction

/-- A script function as a program declares it. -/
structure Declaration where
  name : Text := []
  params : List Text := []
  entry : Int64 := 0
  constructs : ConstructKind := .object
  deriving DecidableEq, Inhabited

/-- What an operand refers to in a program that was taken out of memory: a function, which may
be native, or a value that is no function. -/
inductive Embedded where
  | script (declaration : Declaration)
  | native (declaration : Declaration)
  | value
  deriving DecidableEq, Inhabited

/-- The declaration of a function of either sort. -/
def Embedded.declaration? : Embedded → Option Declaration
  | .script declaration | .native declaration => some declaration
  | .value => none

/-- Instructions, the items they refer to by number, and the bounds of a run. -/
structure ProgramOf (Item : Type) where
  code : Array (Instruction Nat) := #[]
  items : Array Item := #[]
  start : Int64 := 0
  stop : Int64 := 0
  deriving DecidableEq, Inhabited

/-- A program as assembly and images give it: all its items are script functions. -/
abbrev Program := ProgramOf Declaration

/-- A program as it was found in memory. -/
abbrev Snapshot := ProgramOf Embedded

namespace ProgramOf

variable {Item : Type}

/-- The address behind the last instruction. -/
def size (program : ProgramOf Item) : Int64 :=
  Int64.ofNat program.code.size

/-- The item an operand refers to. -/
def item? (program : ProgramOf Item) (datum : Datum Nat) : Option Item :=
  datum.object.bind fun index => program.items[index]?

/-- The address a jump at `pc` leads to. -/
def jumpTarget (pc : Nat) (instruction : Instruction Nat) : Int64 :=
  Int64.ofNat pc + instruction.jump + 1

end ProgramOf

/-- A program seen as one taken out of memory. -/
def Program.snapshot (program : Program) : Snapshot :=
  { program with items := program.items.map Embedded.script }

end ScriptEngine
