/-
This file says what configuration files may hold. A schema lists fields with a rule for the
value of each; a file may leave fields out, but may not have others. A rule names a sort of
values, bounds a number, fixes a value, or combines other rules.
-/

import ScriptEngine.Config.Reader

namespace ScriptEngine.Config

/-- How a number is compared with a bound. -/
inductive Comparison where
  | atLeast
  | above
  | atMost
  | below
  deriving DecidableEq, Repr

/-- Whether a comparison holds between two integers. -/
def Comparison.holds : Comparison → Int → Int → Bool
  | .atLeast, left, right => right ≤ left
  | .above, left, right => right < left
  | .atMost, left, right => left ≤ right
  | .below, left, right => left < right

/-- What the value of a field has to be. -/
inductive Rule where
  | any
  | null
  | bool
  | integer
  | fractional
  | text
  | bounded (comparison : Comparison) (bound : Int)
  | exactly (value : Value)
  /-- A list all of whose items satisfy a rule. -/
  | listOf (item : Rule)
  /-- A record; fields that are not named are free. -/
  | record (fields : List (Text × Rule))
  | both (left right : Rule)
  | either (left right : Rule)
  deriving Inhabited

/-- Compares a decimal with an integer, both multiplied by a power of ten. -/
def Comparison.holdsOf (comparison : Comparison) (decimal : Number.Decimal) (bound : Int) : Bool :=
  let magnitude : Int := decimal.digits * Nat.pow 10 decimal.exponent.toNat
  comparison.holds (if decimal.negative then -magnitude else magnitude)
    (bound * Nat.pow 10 (-decimal.exponent).toNat)

mutual

/-- Whether a value satisfies a rule. -/
def Rule.admits : Rule → Value → Bool
  | .any, _ => true
  | .null, .null => true
  | .bool, .bool _ => true
  | .integer, .integer _ => true
  | .fractional, .number _ => true
  | .text, .text _ => true
  | .bounded comparison bound, .integer value => comparison.holds value bound
  | .bounded comparison bound, .number value => comparison.holdsOf value bound
  | .exactly expected, value => (expected.merge value).isSome
  | .listOf item, .list items => items.all item.admits
  | .record rules, .record fields => Rule.admitsFields rules fields
  | .both left right, value => left.admits value && right.admits value
  | .either left right, value => left.admits value || right.admits value
  | _, _ => false

/-- Whether the fields that rules name satisfy them. -/
def Rule.admitsFields : List (Text × Rule) → Fields → Bool
  | [], _ => true
  | (name, rule) :: rest, fields =>
    ((fields.lookup name).all fun value => rule.admits value) && Rule.admitsFields rest fields

end

/-- The rules of all fields that a file may have. -/
abbrev Schema := List (Text × Rule)

/-- Whether a file satisfies a schema. -/
def Schema.admits (schema : Schema) : Value → Bool
  | .record fields =>
    (fields.all fun (name, _) => (schema.lookup name).isSome) && Rule.admitsFields schema fields
  | _ => false

/-! ### Reading a schema -/

/-- The comparison that a mark stands for. -/
def comparison? : String → Option Comparison
  | ">=" => some .atLeast
  | ">" => some .above
  | "<=" => some .atMost
  | "<" => some .below
  | _ => none

/-- The rule that a name stands for. -/
def namedRule? (name : Text) : Option Rule :=
  if name = "bool" then some .bool
  else if name = "int" then some .integer
  else if name = "uint" then some (.both .integer (.bounded .atLeast 0))
  else if name = "float" then some .fractional
  else if name = "number" then some (.either .integer .fractional)
  else if name = "string" then some .text
  else if name = "_" then some .any
  else none

/-- An integer, perhaps with a sign. -/
def readBound : Reading Int := do
  let negative ← takeMark? "-"
  match ← readSigned negative with
  | .integer value => return value
  | _ => failure

/-- The rules between brackets: an open list of items, or a list of given values. -/
def readListRule (read : Reading Rule) (values : Reading (List Value)) : Reading Rule := do
  if ← takeMark? "..." then
    if ← takeMark? "]" then return .listOf .any
    else
      let item ← read
      let _ ← takeMark? ","
      takeMark "]"
      return .listOf item
  else return .exactly (.list (← values))

mutual

/-- A rule: alternatives. -/
def readRule : (nesting : Nat) → Reading Rule
  | 0 => failure
  | nesting + 1 => do
    let left ← readJoined nesting
    if ← takeMark? "|" then return .either left (← readRule nesting) else return left

/-- Rules that have to be satisfied together. -/
def readJoined : (nesting : Nat) → Reading Rule
  | 0 => failure
  | nesting + 1 => do
    let left ← readSimple nesting
    if ← takeMark? "&" then return .both left (← readJoined nesting) else return left

/-- A rule without operators around it. -/
def readSimple : (nesting : Nat) → Reading Rule
  | 0 => failure
  | nesting + 1 => do
    let tokens ← get
    match ← peek with
    | some (.name name) =>
      match namedRule? name with
      | some rule =>
        let _ ← take
        return rule
      | none => return .exactly (← readValue nesting)
    | some (.mark "[") =>
      let _ ← take
      readListRule (readRule nesting) (readMembers (readValue nesting) (some "]") tokens.length)
    | some (.mark "(") =>
      let _ ← take
      let rule ← readRule nesting
      takeMark ")"
      return rule
    | some (.mark "\x7b") =>
      let _ ← take
      return .record (← readMembers (readRuleField nesting) (some "\x7d") tokens.length)
    | some (.mark symbol) =>
      match comparison? symbol with
      | some comparison =>
        let _ ← take
        return .bounded comparison (← readBound)
      | none => return .exactly (← readValue nesting)
    | _ => return .exactly (← readValue nesting)

/-- A field of a schema: a name, perhaps a mark that it may be left out, and a rule. -/
def readRuleField : (nesting : Nat) → Reading (Text × Rule)
  | 0 => failure
  | nesting + 1 => do
    let label ← takeLabel
    if !(← takeMark? "?") then
      let _ ← takeMark? "!"
    takeMark ":"
    return (label, ← readRule nesting)

end

/-- The schema that a text is. -/
def schema? (text : Text) : Option Schema := do
  let tokens ← tokens? text
  let (fields, _) ←
    (readMembers (readRuleField (4 * tokens.length + 4)) none (tokens.length + 1)).run tokens
  return fields

end ScriptEngine.Config
