/-
This file is the codec that the engine itself uses: an image as one data item, a record whose
fields have numbers, and so have the fields of its instructions and functions. Fields at their
zero are left out, which makes a negative zero a plain one.
-/

import ScriptEngine.Image
import ScriptEngine.Image.Record

namespace ScriptEngine

namespace Image.Cbor

open Item (ofInt ofText ofBool ofFields omitting)

/-! ### Writing -/

/-- A 64-bit integer as an item. -/
def ofInt64 (value : Int64) : Item := ofInt value.toInt

/-- A byte as an item. -/
def ofByte (value : UInt8) : Item := .unsigned value.toNat

/-- A function as a record. -/
def ofDeclaration (declaration : Declaration) : Item :=
  ofFields [
    (1, ofText declaration.name),
    (2, omitting [] declaration.params fun params => .sequence (params.map ofText)),
    (3, ofInt64 declaration.entry),
    (4, omitting 0 declaration.constructs.code ofByte)]

/-- An instruction as a record. -/
def ofWritten (written : Written) : Item :=
  ofFields [
    (1, ofByte written.opcode.code),
    (2, omitting 0 written.jump ofInt64),
    (3, omitting 0 written.kind.code ofByte),
    (4, if written.number == 0 then none else some (.float written.number)),
    (5, omitting [] written.text ofText),
    (6, omitting false written.bool ofBool),
    (7, omitting 0 written.function ofInt64)]

/-- An image as a record. -/
def ofImage (image : Image) : Item :=
  ofFields [
    (1, ofInt64 image.version),
    (2, ofInt64 image.start),
    (3, ofInt64 image.stop),
    (4, some (.sequence (image.code.map ofWritten))),
    (5, omitting [] image.functions fun functions => .sequence (functions.map ofDeclaration))]

/-! ### Reading -/

/-- The function that a record describes. -/
def declaration? (item : Item) : Option Declaration := do
  let record ← item.record?
  return {
    name := ← record.field 1 [] Item.text?
    params := ← record.field 2 [] (Item.list? [] Item.text?)
    entry := ← record.field 3 0 Item.int64?
    constructs := .ofCode (← record.field 4 0 Item.byte?) }

/-- The instruction that a record describes. -/
def written? (item : Item) : Option Written := do
  let record ← item.record?
  return {
    opcode := .ofCode (← record.field 1 0 Item.byte?)
    jump := ← record.field 2 0 Item.int64?
    kind := .ofCode (← record.field 3 0 Item.byte?)
    number := ← record.field 4 0 Item.number?
    text := ← record.field 5 [] Item.text?
    bool := ← record.field 6 false Item.bool?
    function := ← record.field 7 0 Item.int64? }

/-- The image that a record describes. -/
def image? (item : Item) : Option Image := do
  let record ← item.record?
  return {
    version := ← record.field 1 0 Item.int64?
    start := ← record.field 2 0 Item.int64?
    stop := ← record.field 3 0 Item.int64?
    code := ← record.field 4 [] (Item.list? {} written?)
    functions := ← record.field 5 [] (Item.list? {} declaration?) }

/-! ### The codec -/

/-- Images as the bytes of data items. -/
def codec : Codec where
  marshal image := some (ofImage image).write
  unmarshal bytes := (Item.read? bytes).bind (Item.orZero {} image?)

end Image.Cbor

/-- The bytes of the image of a program, as the engine writes them. -/
def Image.encode : Snapshot → Except ImageError Text := Cbor.codec.encode

/-- The program that bytes are the image of, as the engine reads them. -/
def Image.decode : Text → Except ImageError Program := Cbor.codec.decode

end ScriptEngine
