/-
This file reads the numbers that texts denote when a script converts them: white space
around is ignored, the empty text is zero, the infinities have names, and all else is a
literal that has none of the bytes which only other literals than decimal ones have. A
literal out of range is an infinity or zero, and no text is read as something that is not a
number.
-/

import ScriptEngine.Number.Literal
import ScriptEngine.Text.Blank

namespace ScriptEngine.Number

/-- The bytes that set the other literals apart from the decimal ones: the underscore, the marks
of hexadecimal literals and of their powers of two, and letters of the words for infinity and for
no number. -/
def barred : Text := "_xXpPiInN"

/-- The number a trimmed text denotes. -/
def ofTrimmed? (text : Text) : Option Float :=
  if text = [] then some 0
  else if text = "Infinity" ∨ text = "+Infinity" then some (infinity false)
  else if text = "-Infinity" then some (infinity true)
  else if text.any barred.contains then none
  else Literal.value? text

/-- The number a text denotes. -/
def ofText? (text : Text) : Option Float :=
  ofTrimmed? (Text.trim text)

end ScriptEngine.Number
