/-
This file writes texts in hexadecimal, two lower-case digits for each byte, and reads them
back. The reader takes digits of either case.
-/

import ScriptEngine.Text.Quoted

namespace ScriptEngine.Text

/-- The hexadecimal digits of a text. -/
def hexadecimal (text : Text) : Text :=
  text.flatMap fun byte => ofHex 2 byte.toNat

/-- The text that hexadecimal digits spell. -/
def ofHexadecimal? : List Char → Option Text
  | [] => some []
  | [_] => none
  | high :: low :: rest => do
    let value := (← Quoted.hexValue? high) * 16 + (← Quoted.hexValue? low)
    return value.toUInt8 :: (← ofHexadecimal? rest)

end ScriptEngine.Text
