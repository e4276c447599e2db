/-
This file reads configuration files. A file is a list of fields, or a record in braces, or
both; a field is a name, a colon and a value, and a field whose value is again a field is a
record with that one field. Readers take tokens off the front; how often they may nest is
bounded by the number of tokens.
-/

import ScriptEngine.Config.Token
import ScriptEngine.Config.Value

namespace ScriptEngine.Config

/-- A reader: from some tokens to a value and the tokens behind it, or to nothing. -/
abbrev Reading := StateT (List Token) Option

/-- The next token, which is not taken. -/
def peek : Reading (Option Token) := do return (← get).head?

/-- The next token. -/
def take : Reading Token := do
  match ← get with
  | [] => failure
  | token :: rest =>
    set rest
    return token

/-- Whether a certain mark comes next; if so it is taken. -/
def takeMark? (mark : String) : Reading Bool := do
  if (← peek) = some (.mark mark) then
    let _ ← take
    return true
  else return false

/-- Takes a certain mark. -/
def takeMark (mark : String) : Reading Unit := do
  if !(← takeMark? mark) then failure

/-- The name of a field. -/
def takeLabel : Reading Text := do
  match ← take with
  | .name label | .text label => return label
  | _ => failure

/-- Whether a name and a colon come next. -/
def atField (tokens : List Token) : Bool :=
  match tokens with
  | .name _ :: .mark ":" :: _ | .text _ :: .mark ":" :: _ => true
  | _ => false

/-- Whether the members of something end here: at its closing mark, which is taken, or at the end
of the file. -/
def takeClose? : (close : Option String) → Reading Bool
  | some mark => takeMark? mark
  | none => do return (← get).isEmpty

/-- Members up to a closing mark, with commas between them and perhaps one behind the last. -/
def readMembers {Member : Type} (read : Reading Member) (close : Option String) :
    (rounds : Nat) → Reading (List Member)
  | 0 => failure
  | rounds + 1 => do
    if ← takeClose? close then return []
    else
      let member ← read
      if ← takeMark? "," then return member :: (← readMembers read close rounds)
      else if ← takeClose? close then return [member]
      else failure

/-- Records merged one after another. -/
def mergeAll (records : List Fields) : Option Fields :=
  records.foldlM Value.mergeFields []

/-- A number, perhaps with a sign. -/
def readSigned (negative : Bool) : Reading Value := do
  match ← take with
  | .integer value => return .integer (if negative then -value else value)
  | .number value => return .number { value with negative }
  | _ => failure

mutual

/-- A value, or a field that stands for the record with that one field. -/
def readValue : (nesting : Nat) → Reading Value
  | 0 => failure
  | nesting + 1 => do
    let tokens ← get
    if atField tokens then return .record (← readField nesting)
    else
      match ← peek with
      | some (.mark "\x7b") => return .record (← readField nesting)
      | some (.mark "[") =>
        let _ ← take
        return .list (← readMembers (readValue nesting) (some "]") tokens.length)
      | some (.mark "-") =>
        let _ ← take
        readSigned true
      | some (.mark "+") =>
        let _ ← take
        readSigned false
      | some (.text value) =>
        let _ ← take
        return .text value
      | some (.name name) =>
        let _ ← take
        if name = "true" then return .bool true
        else if name = "false" then return .bool false
        else if name = "null" then return .null
        else failure
      | _ => readSigned false

/-- The fields that one member of a record gives: a named field, or those of a record in
braces. -/
def readField : (nesting : Nat) → Reading Fields
  | 0 => failure
  | nesting + 1 => do
    if ← takeMark? "\x7b" then
      mergeAll (← readMembers (readField nesting) (some "\x7d") (← get).length)
    else
      let label ← takeLabel
      takeMark ":"
      return [(label, ← readValue nesting)]

end

/-- The fields of a whole file. -/
def readFile (tokens : List Token) : Option Fields := do
  let (records, _) ← (readMembers (readField tokens.length) none (tokens.length + 1)).run tokens
  mergeAll records

/-- The record that a text is. -/
def read? (text : Text) : Option Value := do
  let tokens ← tokens? text
  return .record (← readFile tokens)

end ScriptEngine.Config
