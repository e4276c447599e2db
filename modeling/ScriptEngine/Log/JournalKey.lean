/-
This file makes keys for a journal, which takes upper-case ASCII letters, digits and
underscores only. Letters are put in upper case first; two letters outside ASCII have an
upper case inside it. Every other character becomes an underscore.
-/

import ScriptEngine.Text.Utf8

namespace ScriptEngine

/-- A character in upper case, as far as that is an ASCII letter. -/
def upperCase (char : Char) : Char :=
  if char = 'ſ' then 'S'
  else if char = 'ı' then 'I'
  else char.toUpper

/-- How a character is written in a journal key. -/
def journalChar (char : Char) : Char :=
  let upper := upperCase char
  if upper.isUpper || upper.isDigit then upper else '_'

/-- The journal key of a text. -/
def journalKey (text : Text) : Text :=
  Text.ofChars (text.chars.map journalChar)

end ScriptEngine
