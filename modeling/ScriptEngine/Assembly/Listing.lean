/-
This file prints programs as assembly. Addresses that jumps, functions and bounds use get
labels named after them. A function is printed in full where it is first pushed and by its
name afterwards; functions that would share a name are told apart by a number, and a name
that is no identifier is replaced. The listing of a program assembles to it again.
-/

import ScriptEngine.Assembly.Lexer
import ScriptEngine.Program

namespace ScriptEngine

namespace Assembly

open Text (isDecimalDigit)

/-! ### Names -/

/-- Whether a text can be printed as an identifier: it reads back as one, and is neither a
directive nor the word that starts a function. -/
def isIdentifier (text : Text) : Bool :=
  match text.chars with
  | [] => false
  | char :: rest =>
    text ≠ "func" && char ≠ '.' && !isDecimalDigit char && char ≠ '-' && char ≠ '+' &&
      (char :: rest).all isIdentifierChar

/-- The label of an address. -/
def labelName (address : Int64) : Text :=
  76 :: Text.ofInt address.toInt

/-- A name, then the same name with the numbers from 2 on behind it. -/
def nameCandidates (base : Text) (count : Nat) : List Text :=
  base :: (List.range count).map fun index => base ++ 95 :: Text.ofNat (index + 2)

/-- The first candidate for a name that is not used; among one more candidate than there are used
names, one is not. -/
def freshName (used : List Text) (base : Text) : Text :=
  ((nameCandidates base used.length).find? fun name => name ∉ used).getD base

/-! ### Functions -/

/-- The functions printed so far, by number, with their names. -/
structure Printed where
  names : List (Nat × Text) := []

/-- The names in use. -/
def Printed.used (printed : Printed) : List Text :=
  printed.names.map Prod.snd

/-- A declaration under a name. -/
def declarationText (name : Text) (declaration : Declaration) : Text :=
  name ++ Text.ofString "(" ++ Text.join ", " declaration.params ++ Text.ofString ") @" ++
    labelName declaration.entry ++
    (if declaration.constructs = .object then [] else 32 :: declaration.constructs.name)

/-- A function behind the word `func`: its name if it was printed before, else the whole
declaration. A function without a name is printed in full every time. -/
def functionText (printed : Printed) (index : Nat) (declaration : Declaration) : Printed × Text :=
  match printed.names.lookup index with
  | some name => (printed, name)
  | none =>
    if declaration.name = [] then (printed, declarationText [] declaration)
    else
      let base := if isIdentifier declaration.name then declaration.name else Text.ofString "fn"
      let name := freshName printed.used base
      (⟨printed.names ++ [(index, name)]⟩, declarationText name declaration)

/-! ### Instructions -/

/-- Why a program has no listing: an operand is of no known kind. -/
structure ListingError where
  kind : DatumKind
  deriving DecidableEq

/-- The operand of a push. -/
def literalText (program : Snapshot) (printed : Printed) (datum : Datum Nat) :
    Except ListingError (Printed × Text) :=
  match datum.kind with
  | .null => return (printed, "null")
  | .number => return (printed, Number.Layout.listing.write datum.number)
  | .text | .name => return (printed, Text.Quoted.encode datum.text)
  | .bool => return (printed, if datum.bool then "true" else "false")
  | .object =>
    match datum.object, (program.item? datum).bind Embedded.declaration? with
    | some index, some declaration =>
      let (printed, text) := functionText printed index declaration
      return (printed, Text.ofString "func " ++ text)
    | _, _ => return (printed, Text.ofString "null ; " ++ datum.shown)
  | .unknown _ => throw ⟨datum.kind⟩

/-- A name as an operand: plain if it was given as a name that reads back, else in quotes. -/
def nameText (datum : Datum Nat) : Text :=
  if datum.kind = .name ∧ isIdentifier datum.text then datum.text
  else Text.Quoted.encode datum.text

/-- Whether an address is one of a program, or the one behind it. -/
def labelled (size target : Int64) : Bool :=
  0 ≤ target && target ≤ size

/-- An instruction without indentation. -/
def instructionText (program : Snapshot) (printed : Printed) (pc : Nat)
    (instruction : Instruction Nat) : Except ListingError (Printed × Text) :=
  let opcode := instruction.opcode.name
  match instruction.opcode.operandClass with
  | .none => return (printed, opcode)
  | .name => return (printed, opcode ++ 32 :: nameText instruction.datum)
  | .count => return (printed, opcode ++ 32 :: Number.Layout.value.write instruction.datum.number)
  | .jump =>
    let target := ProgramOf.jumpTarget pc instruction
    if labelled program.size target then
      return (printed, opcode ++ Text.ofString " @" ++ labelName target)
    else return (printed, opcode ++ 32 :: Text.ofInt instruction.jump.toInt)
  | .literal => do
    let (printed, text) ← literalText program printed instruction.datum
    return (printed, opcode ++ 32 :: text)

/-! ### Programs -/

/-- The addresses that an instruction uses. -/
def instructionTargets (program : Snapshot) (pc : Nat) (instruction : Instruction Nat) :
    List Int64 :=
  let target := ProgramOf.jumpTarget pc instruction
  let jumps := if instruction.opcode.isJump && labelled program.size target then [target] else []
  let entries :=
    if instruction.opcode = .push ∧ instruction.datum.kind = .object then
      match (program.item? instruction.datum).bind Embedded.declaration? with
      | some declaration => [declaration.entry]
      | none => []
    else []
  jumps ++ entries

/-- Instructions with their addresses. -/
def numbered (program : Snapshot) : List (Nat × Instruction Nat) :=
  (List.range program.code.size).zip program.code.toList

/-- All addresses that get a label. -/
def targets (program : Snapshot) : List Int64 :=
  (numbered program).flatMap (fun (pc, instruction) => instructionTargets program pc instruction) ++
    (if program.start = 0 then [] else [program.start]) ++
    (if program.stop = program.size then [] else [program.stop])

/-- The line that defines the label of an address, if it has one. -/
def labelLine (labels : List Int64) (address : Int64) : Text :=
  if labels.contains address then labelName address ++ Text.ofString ":\n" else []

/-- The lines of instructions. -/
def instructionLines (program : Snapshot) (labels : List Int64) :
    Printed → List (Nat × Instruction Nat) → Except ListingError (List Text)
  | _, [] => return []
  | printed, (pc, instruction) :: rest => do
    let (printed, text) ← instructionText program printed pc instruction
    let lines ← instructionLines program labels printed rest
    return (labelLine labels (Int64.ofNat pc) ++ 9 :: text ++ Text.ofString "\n") :: lines

/-- A directive, where a bound is not the usual one. -/
def directiveLine (word : Text) (bound usual : Int64) : Text :=
  if bound = usual then [] else word ++ 32 :: labelName bound ++ Text.ofString "\n"

end Assembly

/-- A program as assembly. -/
def ProgramOf.listing (program : Snapshot) : Except Assembly.ListingError Text := do
  let labels := Assembly.targets program
  let lines ← Assembly.instructionLines program labels {} (Assembly.numbered program)
  return Assembly.directiveLine ".entry" program.start 0 ++
    Assembly.directiveLine ".end" program.stop program.size ++ lines.flatten ++
    Assembly.labelLine labels program.size

end ScriptEngine
