/-
This file reads the arguments of commands. A parameter says of what sort its argument is and
whether it may be left out; an argument that is left out is the zero of its sort. Integers
are read with 64 bits and then cut to the width of the parameter.
-/

import ScriptEngine.Number.Interchange
import ScriptEngine.Number.Literal
import ScriptEngine.Text.Quoted

namespace ScriptEngine

open Number (NumeralProblem)

/-- What a command takes in one place. -/
inductive Parameter where
  | bool
  | integer (bits : Nat)
  | natural (bits : Nat)
  | number (format : Number.BinaryFormat)
  | text
  | optional (inner : Parameter)
  /-- A sort that no argument can be read as, by its name. -/
  | unsupported (name : Text)
  deriving DecidableEq

/-- What a command was given in one place. -/
inductive Argument where
  | bool (value : Bool)
  | integer (value : Int)
  | number (value : Float)
  | text (value : Text)
  /-- The zero of a sort that has no other values here. -/
  | nothing
  deriving DecidableEq

/-- The three sorts of numbers an argument is converted to. -/
inductive NumeralSort where
  | integer
  | natural
  | number
  deriving DecidableEq, Repr

/-- Why an argument cannot be read. -/
inductive ArgumentError where
  | missing
  | numeral (sort : NumeralSort) (text : Text) (problem : NumeralProblem)
  | unsupported (name : Text)
  /-- An optional parameter inside another one takes no argument. -/
  | nestedOptional
  deriving DecidableEq

/-- How messages call a sort of numbers. -/
def NumeralSort.label : NumeralSort → Text
  | .integer => "int"
  | .natural => "unsigned int"
  | .number => "float"

/-- How messages call the reader of a sort of numbers. -/
def NumeralSort.reader : NumeralSort → Text
  | .integer => "strconv.ParseInt"
  | .natural => "strconv.ParseUint"
  | .number => "strconv.ParseFloat"

/-- The message of an argument error. -/
def ArgumentError.message : ArgumentError → Text
  | .missing => "expecting argument, got nothing"
  | .numeral sort text problem =>
    Text.ofString "convert " ++ text ++ Text.ofString " to " ++ sort.label ++ Text.ofString ": " ++
      sort.reader ++ Text.ofString ": parsing " ++ Text.Quoted.encode text ++
      (match problem with
        | .malformed => Text.ofString ": invalid syntax"
        | .outOfRange => Text.ofString ": value out of range")
  | .unsupported name => Text.ofString "unsupported type: " ++ name
  | .nestedOptional => "optional parameters do not nest"

/-! ### Truth values -/

/-- The words for true. -/
def trueWords : List Text := ["true", "t", "yes", "y"]

/-- Whether a text is a word for true, in letters of either case. Every other text means false. -/
def truthOf (text : Text) : Bool :=
  trueWords.contains (text.map Number.Literal.lower)

/-! ### Integers -/

/-- The number that digits spell, behind others that spell `value`. Digits are read one by one, and
the number stays below `2 ^ 64`: what comes behind the digit that is too much is not looked at. -/
def naturalFrom : (value : Nat) → Text → Except NumeralProblem Nat
  | value, [] => .ok value
  | value, byte :: rest =>
    match Text.digitValue? byte with
    | none => .error .malformed
    | some digit =>
      if value * 10 + digit < UInt64.size then naturalFrom (value * 10 + digit) rest
      else .error .outOfRange

/-- A natural number of 64 bits. -/
def naturalOf : Text → Except NumeralProblem Nat
  | [] => .error .malformed
  | digits => naturalFrom 0 digits

/-- An integer of 64 bits. -/
def integerOf (text : Text) : Except NumeralProblem Int := do
  let (negative, digits) := Number.Decimal.splitSign text
  let magnitude ← naturalOf digits
  if negative then
    if magnitude ≤ Nat.pow 2 63 then return -magnitude else .error .outOfRange
  else if magnitude < Nat.pow 2 63 then return magnitude
  else .error .outOfRange

/-! ### Parameters -/

/-- The sorts that have a name: integers and natural numbers of a width, numbers of a width,
texts and truth values. A sort without a width has 64 bits. -/
def Parameter.named : List (Text × Parameter) :=
  [("bool", .bool), ("string", .text), ("float32", .number .single), ("float64", .number .double),
   ("int", .integer 64), ("int8", .integer 8), ("int16", .integer 16), ("int32", .integer 32),
   ("int64", .integer 64), ("uint", .natural 64), ("uint8", .natural 8), ("uint16", .natural 16),
   ("uint32", .natural 32), ("uint64", .natural 64)]

/-- The parameter with the name of a sort; a star before the name makes it optional. -/
def Parameter.ofName : Text → Parameter
  | 42 :: name => .optional (ofName name)
  | name => (named.lookup name).getD (.unsupported name)

/-- What an argument that was left out stands for. -/
def Parameter.zero : Parameter → Argument
  | .bool => .bool false
  | .integer _ | .natural _ => .integer 0
  | .number _ => .number 0
  | .text => .text []
  | .optional _ | .unsupported _ => .nothing

/-- The argument that a word is. -/
def Parameter.ofWord (word : Text) : Parameter → Except ArgumentError Argument
  | .bool => return .bool (truthOf word)
  | .integer bits => do
    let value ← (integerOf word).mapError (.numeral .integer word)
    return .integer (Int.bmod value (Nat.pow 2 bits))
  | .natural bits => do
    let value ← (naturalOf word).mapError (.numeral .natural word)
    return .integer (value % Nat.pow 2 bits : Nat)
  | .number format => do
    let value ← (Number.Literal.read word).mapError (.numeral .number word)
    return .number (format.nearest value)
  | .text => return .text word
  | .unsupported name => throw (.unsupported name)
  | .optional inner => do
    let argument ← inner.ofWord word
    match inner with
    | .optional _ => throw .nestedOptional
    | _ => return argument

/-- The argument of a parameter, from the word in its place if there is one. -/
def Parameter.argument (parameter : Parameter) : Option Text → Except ArgumentError Argument
  | some word => parameter.ofWord word
  | none =>
    match parameter with
    | .optional inner => return inner.zero
    | _ => throw .missing

/-- The arguments of parameters, one word each. -/
def Parameter.arguments : List Parameter → List Text → Except ArgumentError (List Argument)
  | [], _ => return []
  | parameter :: parameters, words => do
    let argument ← parameter.argument words.head?
    return argument :: (← arguments parameters words.tail)

end ScriptEngine
