/-
This file holds the white space characters and what trimming removes. White space is the
Unicode property of that name; a byte that belongs to no character is never blank.
-/

import ScriptEngine.Text.Ranges
import ScriptEngine.Text.Utf8

namespace ScriptEngine.Text

/-- The code points with the white space property, as ascending ranges. -/
def blankRanges : List (Nat × Nat) :=
  [(0x9, 0xD), (0x20, 0x20), (0x85, 0x85), (0xA0, 0xA0), (0x1680, 0x1680), (0x2000, 0x200A),
   (0x2028, 0x2029), (0x202F, 0x202F), (0x205F, 0x205F), (0x3000, 0x3000)]

/-- Whether a character is white space. -/
def isBlank (char : Char) : Bool := within blankRanges char.toNat

/-- Whether a piece of text is a white space character. -/
def Piece.isBlank : Piece → Bool
  | .char value => Text.isBlank value
  | .stray _ => false

/-- A text without the white space at both its ends. -/
def trim (text : Text) : Text :=
  ofPieces (((pieces text).dropWhile Piece.isBlank).reverse.dropWhile Piece.isBlank).reverse

end ScriptEngine.Text
