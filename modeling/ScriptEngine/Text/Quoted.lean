/-
This file writes a text between double quotes and reads it back. Printable characters stand
for themselves; a control character, an unprintable character and a stray byte are written
as escapes, the byte as `\x` and two hexadecimal digits. Reading accepts every escape that
writing uses, and octal ones besides.
-/

import ScriptEngine.Text.Printable
import ScriptEngine.Text.Utf8

namespace ScriptEngine.Text.Quoted

/-- The one-letter escape of a control character. -/
def shortEscape? (char : Char) : Option Char :=
  match char.toNat with
  | 7 => some 'a'
  | 8 => some 'b'
  | 12 => some 'f'
  | 10 => some 'n'
  | 13 => some 'r'
  | 9 => some 't'
  | 11 => some 'v'
  | _ => none

/-- How one character is written between the quotes. -/
def encodeChar (char : Char) : Text :=
  if char = '"' ∨ char = '\\' then ofChars ['\\', char]
  else if isPrintable char then String.utf8EncodeChar char
  else match shortEscape? char with
    | some letter => ofChars ['\\', letter]
    | none =>
      if char.toNat < 0x20 ∨ char.toNat = 0x7F then ofChars ['\\', 'x'] ++ ofHex 2 char.toNat
      else if char.toNat < 0x10000 then ofChars ['\\', 'u'] ++ ofHex 4 char.toNat
      else ofChars ['\\', 'U'] ++ ofHex 8 char.toNat

/-- How one piece of text is written between the quotes. -/
def encodePiece : Piece → Text
  | .char value => encodeChar value
  | .stray byte => ofChars ['\\', 'x'] ++ ofHex 2 byte.toNat

/-- A text between double quotes. -/
def encode (text : Text) : Text :=
  34 :: (pieces text).flatMap encodePiece ++ [34]

/-- The value of a hexadecimal digit of either case. -/
def hexValue? (char : Char) : Option Nat :=
  if '0' ≤ char ∧ char ≤ '9' then some (char.toNat - 48)
  else if 'a' ≤ char ∧ char ≤ 'f' then some (char.toNat - 87)
  else if 'A' ≤ char ∧ char ≤ 'F' then some (char.toNat - 55)
  else none

/-- The value of an octal digit. -/
def octalValue? (char : Char) : Option Nat :=
  if '0' ≤ char ∧ char ≤ '7' then some (char.toNat - 48) else none

/-- The number that digits of one base spell. -/
def digitsValue? (base : Nat) (value? : Char → Option Nat) (digits : List Char) : Option Nat :=
  digits.foldl (fun value digit => do return (← value) * base + (← value? digit)) (some 0)

/-- The UTF-8 bytes of a code point; none for a surrogate or a number beyond the last one. -/
def scalar? (value : Nat) : Option Text :=
  if value.isValidChar then some (String.utf8EncodeChar (Char.ofNat value)) else none

/-- The byte a one-letter escape denotes. -/
def shortValue? (letter : Char) : Option UInt8 :=
  match letter with
  | 'a' => some 7
  | 'b' => some 8
  | 'f' => some 12
  | 'n' => some 10
  | 'r' => some 13
  | 't' => some 9
  | 'v' => some 11
  | '\\' => some 92
  | '"' => some 34
  | _ => none

/-- The text that the characters between two quotes denote. -/
def decode : List Char → Option Text
  | [] => some []
  | '\\' :: 'x' :: high :: low :: rest => do
    let value ← digitsValue? 16 hexValue? [high, low]
    return value.toUInt8 :: (← decode rest)
  | '\\' :: 'u' :: a :: b :: c :: d :: rest => do
    let bytes ← scalar? (← digitsValue? 16 hexValue? [a, b, c, d])
    return bytes ++ (← decode rest)
  | '\\' :: 'U' :: a :: b :: c :: d :: e :: f :: g :: h :: rest => do
    let bytes ← scalar? (← digitsValue? 16 hexValue? [a, b, c, d, e, f, g, h])
    return bytes ++ (← decode rest)
  | '\\' :: letter :: rest =>
    match shortValue? letter with
    | some byte => do return byte :: (← decode rest)
    | none =>
      match rest with
      | second :: third :: rest => do
        let value ← digitsValue? 8 octalValue? [letter, second, third]
        if value < 256 then return value.toUInt8 :: (← decode rest) else none
      | _ => none
  | ['\\'] => none
  | '"' :: _ => none
  | char :: rest => do return String.utf8EncodeChar char ++ (← decode rest)

end ScriptEngine.Text.Quoted
