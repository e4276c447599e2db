/-
This file reads bytes as characters. A text splits in one way into well-formed UTF-8
sequences and stray bytes, a stray byte being one that starts no well-formed sequence at
its place. Reading characters shows a stray byte as the replacement character, quoting
keeps it apart, and writing the pieces back gives the text again.
-/

import ScriptEngine.Text

namespace ScriptEngine.Text

/-- One character of a text, or one byte that belongs to no character. -/
inductive Piece where
  | char (value : Char)
  | stray (byte : UInt8)
  deriving DecidableEq, Repr

/-- The bytes a piece was read from. -/
def Piece.bytes : Piece → Text
  | .char value => String.utf8EncodeChar value
  | .stray byte => [byte]

/-- The character a piece shows: a stray byte shows as U+FFFD. -/
def Piece.shown : Piece → Char
  | .char value => value
  | .stray _ => '\uFFFD'

/-- The code point that a leading byte's payload and the continuation bytes spell. -/
def codePoint (payload : Nat) (continuation : Text) : Nat :=
  continuation.foldl (fun value byte => value * 64 + byte.toNat % 64) payload

/-- The only character whose encoding can start the text. -/
def candidate? : Text → Option Char
  | [] => none
  | lead :: rest =>
    if lead < 0x80 then some (Char.ofNat lead.toNat)
    else if lead < 0xC0 then none
    else if lead < 0xE0 then some (Char.ofNat (codePoint (lead.toNat % 32) (rest.take 1)))
    else if lead < 0xF0 then some (Char.ofNat (codePoint (lead.toNat % 16) (rest.take 2)))
    else some (Char.ofNat (codePoint (lead.toNat % 8) (rest.take 3)))

/-- The character that starts the text: its encoding, in full, stands there. -/
def leading? (text : Text) : Option Char :=
  (candidate? text).filter fun char => (String.utf8EncodeChar char).isPrefixOf text

/-- The pieces of a text after `skip` bytes that an earlier character has used. -/
def piecesAfter : (skip : Nat) → Text → List Piece
  | _, [] => []
  | skip + 1, _ :: rest => piecesAfter skip rest
  | 0, byte :: rest =>
    match leading? (byte :: rest) with
    | some char => .char char :: piecesAfter ((String.utf8EncodeChar char).length - 1) rest
    | none => .stray byte :: piecesAfter 0 rest

/-- The pieces of a text in order. -/
def pieces (text : Text) : List Piece := piecesAfter 0 text

/-- The characters of a text, stray bytes shown as U+FFFD. -/
def chars (text : Text) : List Char := (pieces text).map Piece.shown

/-- Whether a text is well-formed UTF-8. -/
def isUtf8 (text : Text) : Bool :=
  (pieces text).all fun
    | .char _ => true
    | .stray _ => false

/-- The bytes of a sequence of pieces. -/
def ofPieces (pieces : List Piece) : Text := pieces.flatMap Piece.bytes

end ScriptEngine.Text
