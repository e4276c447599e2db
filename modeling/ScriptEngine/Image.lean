/-
This file is the image of a program: the record that is kept of it, with its bounds, its
instructions and its functions. An instruction refers to a function by its place, counted
from one, so that instructions that push the same function still do so when the image is
read. What makes bytes of a record and a record of bytes is a codec, and any codec will do
here: an image is written from a record of one program, and a record that was read is checked
before it counts as a program.
-/

import ScriptEngine.Program

namespace ScriptEngine

/-- Why a program has no image, or bytes are no image of a program. -/
inductive ImageError where
  /-- An operand refers to something else than a script function. -/
  | notEmbeddable (pc : Nat)
  /-- The codec does not write the record. -/
  | unwritable
  /-- The codec does not read the bytes. -/
  | unreadable
  | version (found : Int64)
  | bounds (start stop : Int64) (size : Nat)
  | opcode (pc : Nat) (found : Opcode)
  | functionIndex (pc : Nat) (found : Int64)
  deriving DecidableEq

/-- The message of an image error. What a codec has to say about its own failures is left out. -/
def ImageError.message : ImageError → Text
  | .notEmbeddable pc =>
    Text.ofString "grokvm: marshal program: pc " ++ Text.ofNat pc ++
      Text.ofString ": only script functions can be embedded"
  | .unwritable => []
  | .unreadable => reading []
  | .version found =>
    reading (Text.ofString "unsupported image version " ++ Text.ofInt found.toInt)
  | .bounds start stop size =>
    reading (Text.ofString "bad bounds [" ++ Text.ofInt start.toInt ++ Text.ofString ", " ++
      Text.ofInt stop.toInt ++ Text.ofString ") for " ++ Text.ofNat size ++
      Text.ofString " instructions")
  | .opcode pc found => readingAt pc found.name
  | .functionIndex pc found =>
    readingAt pc (Text.ofString "bad function index " ++ Text.ofInt found.toInt)
where
  /-- A problem found while an image is read. -/
  reading (problem : Text) : Text := Text.ofString "grokvm: unmarshal program: " ++ problem
  /-- A problem with one instruction. -/
  readingAt (pc : Nat) (problem : Text) : Text :=
    reading (Text.ofString "pc " ++ Text.ofNat pc ++ Text.ofString ": " ++ problem)

/-! ### Programs with script functions only -/

/-- The place of an item among those met so far; a new one gets the next place. -/
def placeOf (met : List Nat) (index : Nat) : Nat × List Nat :=
  match met.findIdx? (· = index) with
  | some place => (place, met)
  | none => (met.length, met ++ [index])

/-- An instruction with its function renumbered. An operand that is meant to be an object has to
be a script function; any other operand refers to nothing. -/
def Instruction.renumber (snapshot : Snapshot) (pc : Nat) (met : List Nat)
    (instruction : Instruction Nat) : Except ImageError (Instruction Nat × List Nat) :=
  let datum := instruction.datum
  if datum.kind = .object then
    match datum.object, snapshot.item? datum with
    | some index, some (.script _) =>
      let (place, met) := placeOf met index
      return ({ instruction with datum := { datum with object := some place } }, met)
    | _, _ => throw (.notEmbeddable pc)
  else return ({ instruction with datum := { datum with object := none } }, met)

/-- Instructions with their functions numbered in the order of first use. -/
def renumberAll (snapshot : Snapshot) :
    (pc : Nat) → List Nat → List (Instruction Nat) →
      Except ImageError (List (Instruction Nat) × List Nat)
  | _, met, [] => return ([], met)
  | pc, met, instruction :: rest => do
    let (first, met) ← instruction.renumber snapshot pc met
    let (others, met) ← renumberAll snapshot (pc + 1) met rest
    return (first :: others, met)

/-- A program out of memory as one that can be written down: all it refers to are script
functions, numbered in the order of first use. -/
def ProgramOf.writable (snapshot : Snapshot) : Except ImageError Program := do
  let (code, met) ← renumberAll snapshot 0 [] snapshot.code.toList
  let declarations := met.filterMap fun index =>
    (snapshot.items[index]?).bind Embedded.declaration?
  return { code := code.toArray, items := declarations.toArray,
           start := snapshot.start, stop := snapshot.stop }

/-! ### Records -/

/-- An instruction as an image has it. -/
structure Image.Written where
  opcode : Opcode := .ofCode 0
  jump : Int64 := 0
  kind : DatumKind := .ofCode 0
  number : Float := 0
  text : Text := []
  bool : Bool := false
  /-- The place of a function among those of the image, counted from one; zero for none. -/
  function : Int64 := 0
  deriving DecidableEq, Inhabited

/-- The record that is kept of a program. -/
structure Image where
  version : Int64 := 0
  start : Int64 := 0
  stop : Int64 := 0
  code : List Image.Written := []
  functions : List Declaration := []
  deriving DecidableEq, Inhabited

namespace Image

/-- What makes bytes of images and images of bytes. -/
structure Codec where
  /-- The bytes of an image. -/
  marshal : Image → Option Text
  /-- The image that bytes are. -/
  unmarshal : Text → Option Image

/-! ### Writing -/

/-- The version that images are written in. -/
def currentVersion : Int64 := 1

/-- An instruction of a program in its image. -/
def Written.ofInstruction (instruction : Instruction Nat) : Written :=
  let datum := instruction.datum
  { opcode := instruction.opcode, jump := instruction.jump, kind := datum.kind,
    number := datum.number, text := datum.text, bool := datum.bool,
    function := Int64.ofNat (datum.object.elim 0 (· + 1)) }

/-- The image of a program whose functions are numbered by their places. -/
def ofProgram (program : Program) : Image :=
  { version := currentVersion, start := program.start, stop := program.stop,
    code := program.code.toList.map Written.ofInstruction, functions := program.items.toList }

/-- The bytes of the image of a program. -/
def Codec.encode (codec : Codec) (snapshot : Snapshot) : Except ImageError Text := do
  match codec.marshal (ofProgram (← snapshot.writable)) with
  | some bytes => return bytes
  | none => throw .unwritable

/-! ### Reading -/

/-- An instruction with the function it refers to. -/
def Written.check (functions pc : Nat) (written : Written) :
    Except ImageError (Instruction Nat) :=
  let datum : Datum Nat :=
    { kind := written.kind, number := written.number, text := written.text, bool := written.bool }
  if !written.opcode.isValid then throw (.opcode pc written.opcode)
  else if written.kind = .object then
    if 1 ≤ written.function ∧ written.function.toInt ≤ functions then
      return { opcode := written.opcode, jump := written.jump
               datum := { datum with object := some (written.function.toInt.toNat - 1) } }
    else throw (.functionIndex pc written.function)
  else return { opcode := written.opcode, jump := written.jump, datum }

/-- Instructions from an address on, with the functions they refer to. -/
def checkAll (functions : Nat) :
    (pc : Nat) → List Written → Except ImageError (List (Instruction Nat))
  | _, [] => return []
  | pc, written :: rest => do
    let first ← written.check functions pc
    return first :: (← checkAll functions (pc + 1) rest)

/-- The program of an image whose parts agree with each other. -/
def check (image : Image) : Except ImageError Program := do
  if image.version ≠ currentVersion then throw (.version image.version)
  if image.start < 0 ∨ image.stop < image.start ∨ image.code.length < image.stop.toInt then
    throw (.bounds image.start image.stop image.code.length)
  let code ← checkAll image.functions.length 0 image.code
  return { code := code.toArray, items := image.functions.toArray,
           start := image.start, stop := image.stop }

/-- The program that bytes are the image of. -/
def Codec.decode (codec : Codec) (bytes : Text) : Except ImageError Program :=
  match codec.unmarshal bytes with
  | some image => image.check
  | none => throw .unreadable

end Image

end ScriptEngine
