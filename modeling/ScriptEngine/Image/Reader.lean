/-
This file reads data items. Heads may be longer than they need be, and strings, sequences
and maps may come without a length and run up to an end mark; items written in any of these
ways are read the same. Sequences and maps nest up to a fixed depth and have a bounded
number of members. A reader takes bytes off the front and leaves the rest.
-/

import ScriptEngine.Image.Item

namespace ScriptEngine

namespace Item

/-- How deep sequences and maps may nest. Tags on one item count too, the first apart. -/
def nestingLimit : Nat := 32

/-- How many members a sequence may have, and how many entries a map. -/
def sizeLimit : Nat := 131072

/-- A reader: from some bytes to a value and the bytes behind it, or to nothing. -/
abbrev Reading := StateT Text Option

variable {Value : Type}

/-! ### Heads -/

/-- The number that bytes spell, highest first. -/
def bigEndianValue (bytes : Text) : Nat :=
  bytes.foldl (fun value byte => value * 256 + byte.toNat) 0

/-- The first byte of an item, split, and the argument behind it. -/
structure Head where
  major : Nat
  /-- Below 24 the argument itself; up to 27 the width of the argument; 31 for no length. -/
  width : Nat
  argument : Nat
  deriving DecidableEq, Repr

/-- Whether the head gives no length. -/
def Head.isOpen (head : Head) : Bool := head.width == 31

/-- As many bytes. -/
def readBytes (count : Nat) : Reading Text := fun bytes =>
  if count ≤ bytes.length then some (bytes.take count, bytes.drop count) else none

/-- The next byte. -/
def readByte : Reading UInt8
  | [] => none
  | byte :: rest => some (byte, rest)

/-- A head. -/
def readHead : Reading Head := do
  let first ← readByte
  let major := first.toNat / 32
  let width := first.toNat % 32
  if width < 24 ∨ width = 31 then return ⟨major, width, width⟩
  else if width < 28 then
    return ⟨major, width, bigEndianValue (← readBytes (Nat.pow 2 (width - 24)))⟩
  else failure

/-! ### Repetition -/

/-- Reads as often as said. -/
def readCount (read : Reading Value) : (count : Nat) → Reading (List Value)
  | 0 => return []
  | count + 1 => do
    let value ← read
    return value :: (← readCount read count)

/-- Reads up to the end mark, in at most so many rounds. -/
def readRounds (read : Reading Value) : (rounds : Nat) → Reading (List Value)
  | 0 => failure
  | rounds + 1 => do
    if (← get).head? = some endMark then
      let _ ← readByte
      return []
    else
      let value ← read
      return value :: (← readRounds read rounds)

/-- Reads up to the end mark. Each value takes a byte at least, so as many rounds as there are
bytes are enough. -/
def readOpen (read : Reading Value) : Reading (List Value) := do
  readRounds read (← get).length

/-- The members of what has a head: counted, or up to the end mark. -/
def readMembers (read : Reading Value) (head : Head) : Reading (List Value) := do
  if head.isOpen then
    let values ← readOpen read
    if values.length ≤ sizeLimit then return values else failure
  else if head.argument ≤ sizeLimit then readCount read head.argument
  else failure

/-! ### Strings -/

/-- A piece of a string that comes in pieces: it is of the same major type and has a length. -/
def readPiece (major : Nat) : Reading Text := do
  let head ← readHead
  if head.major = major ∧ !head.isOpen then readBytes head.argument else failure

/-- The pieces of a string. -/
def readPieces (head : Head) : Reading (List Text) := do
  if head.isOpen then readOpen (readPiece head.major)
  else return [← readBytes head.argument]

/-! ### Items -/

/-- A simple value or a floating-point number. A code below 32 fits into the first byte and has to
stand there. -/
def ofPrimitive? (head : Head) : Option Item :=
  if head.width < 24 then some (.simple head.argument)
  else if head.width = 24 then if head.argument < 32 then none else some (.simple head.argument)
  else if head.width = 25 then some (.float (Number.BinaryFormat.half.value head.argument))
  else if head.width = 26 then some (.float (Number.BinaryFormat.single.value head.argument))
  else if head.width = 27 then some (.float (Float.ofBits head.argument.toUInt64))
  else none

/-- Whether the next item has a tag in front. -/
def atTag (bytes : Text) : Bool :=
  bytes.head?.any fun byte => byte.toNat / 32 == 6

/-- The tags in front of an item, in at most so many rounds. -/
def readTagRounds : (rounds : Nat) → Reading (List Nat)
  | 0 => return []
  | rounds + 1 => do
    if atTag (← get) then
      let head ← readHead
      if head.isOpen then failure
      else return head.argument :: (← readTagRounds rounds)
    else return []

/-- An item with its tags, given how an untagged one is read at each depth that is left. -/
def readTagged (nesting : Nat) (read : (left : Nat) → left ≤ nesting → Reading Item) :
    Reading Item := do
  let tags ← readTagRounds (← get).length
  let left := nesting - (tags.length - 1)
  if nesting < tags.length - 1 then failure
  else
    let content ← read left (Nat.sub_le ..)
    return tags.foldr .tagged content

/-- A key and its value. -/
def readEntry (read : Reading Item) : Reading (Item × Item) := do
  let key ← read
  return (key, ← read)

/-- An item without tags, when as many sequences and maps may still nest. -/
def readUntagged (nesting : Nat) : Reading Item := do
  let head ← readHead
  match head.major, nesting with
  | 0, _ => if head.isOpen then failure else return .unsigned head.argument
  | 1, _ => if head.isOpen then failure else return .negative head.argument
  | 2, _ => return .bytes (← readPieces head)
  | 3, _ => return .text (← readPieces head)
  | 4, inner + 1 =>
    return .sequence (← readMembers (readTagged inner fun left _ => readUntagged left) head)
  | 5, inner + 1 =>
    return .map (← readMembers (readEntry (readTagged inner fun left _ => readUntagged left)) head)
  | 7, _ => ofPrimitive? head
  | _, _ => failure
termination_by nesting

/-- An item with its tags. -/
def readItem : Reading Item :=
  readTagged nestingLimit fun left _ => readUntagged left

/-- The item that bytes are, with nothing behind it. -/
def read? (bytes : Text) : Option Item :=
  match readItem bytes with
  | some (item, []) => some item
  | _ => none

end Item

end ScriptEngine
