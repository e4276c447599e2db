/-
This file is about the data items that an image is made of: integers, byte and text strings,
sequences, maps, tagged items, simple values and floating-point numbers, as CBOR has them.
Writing an item uses the shortest head for every length and integer and the narrowest format
for every floating-point number. A string keeps the pieces it was read in; one that was
written in one piece has one.
-/

import ScriptEngine.Number.Interchange
import ScriptEngine.Text

namespace ScriptEngine

/-- A data item. -/
inductive Item where
  | unsigned (value : Nat)
  /-- The integer `-1 - below`. -/
  | negative (below : Nat)
  | bytes (pieces : List Text)
  | text (pieces : List Text)
  | sequence (items : List Item)
  | map (entries : List (Item × Item))
  | tagged (tag : Nat) (content : Item)
  /-- A value without content of its own; the codes 20 to 23 are false, true, null and
  undefined. -/
  | simple (code : Nat)
  | float (value : Float)
  deriving Inhabited

namespace Item

/-- The item of an integer. -/
def ofInt : Int → Item
  | .ofNat value => .unsigned value
  | .negSucc below => .negative below

/-- The item of a text, in one piece. -/
def ofText (text : Text) : Item := .text [text]

/-- The item of a truth value. -/
def ofBool (truth : Bool) : Item := .simple (if truth then 21 else 20)

/-! ### Writing -/

/-- The low bytes of a number, `count` of them, highest first. -/
def bigEndian : (count : Nat) → (value : Nat) → Text
  | 0, _ => []
  | count + 1, value => bigEndian count (value / 256) ++ [(value % 256).toUInt8]

/-- A head: the major type in three bits, and an argument in as few bytes as hold it. -/
def head (major argument : Nat) : Text :=
  if argument < 24 then [(major * 32 + argument).toUInt8]
  else if argument < UInt8.size then (major * 32 + 24).toUInt8 :: bigEndian 1 argument
  else if argument < UInt16.size then (major * 32 + 25).toUInt8 :: bigEndian 2 argument
  else if argument < UInt32.size then (major * 32 + 26).toUInt8 :: bigEndian 4 argument
  else (major * 32 + 27).toUInt8 :: bigEndian 8 argument

/-- The byte that ends what has no length in its head. -/
def endMark : UInt8 := 0xFF

/-- A string: in one piece with its length in front, or in pieces up to an end mark. -/
def stringBytes (major : Nat) : List Text → Text
  | [piece] => head major piece.length ++ piece
  | pieces =>
    (major * 32 + 31).toUInt8 ::
      pieces.flatMap (fun piece => head major piece.length ++ piece) ++ [endMark]

/-- A floating-point number in the narrowest format that has it. -/
def floatBytes (value : Float) : Text :=
  match Number.BinaryFormat.half.bits? value, Number.BinaryFormat.single.bits? value with
  | some bits, _ => 0xF9 :: bigEndian 2 bits
  | none, some bits => 0xFA :: bigEndian 4 bits
  | none, none => 0xFB :: bigEndian 8 value.toBits.toNat

mutual

/-- The bytes of an item. -/
def write : Item → Text
  | .unsigned value => head 0 value
  | .negative below => head 1 below
  | .bytes pieces => stringBytes 2 pieces
  | .text pieces => stringBytes 3 pieces
  | .sequence items => head 4 items.length ++ writeItems items
  | .map entries => head 5 entries.length ++ writeEntries entries
  | .tagged tag content => head 6 tag ++ write content
  | .simple code => head 7 code
  | .float value => floatBytes value

/-- The bytes of items, one after another. -/
def writeItems : List Item → Text
  | [] => []
  | item :: rest => write item ++ writeItems rest

/-- The bytes of the keys and values of a map, one after another. -/
def writeEntries : List (Item × Item) → Text
  | [] => []
  | (key, value) :: rest => write key ++ write value ++ writeEntries rest

end

end Item

end ScriptEngine
