/-
This file lists what can go wrong in a run. A script fault is raised by an instruction that
is well-formed but cannot go on; on its way out of functions entered by the host it collects
the places it passed. A malformed instruction stream ends the run where it stands. A
breakdown is a step that the machine's own set-up does not support.
-/

import ScriptEngine.Program

namespace ScriptEngine

/-- Why a script fault was raised. -/
inductive Cause where
  | notCallable
  | emptyPropertyKey
  | frameLimit
  | unbound (name : Text)
  | assertion (left right : Text)
  | assertionArguments (count : Nat)
  | invokeArguments
  | arrayLength (length : Text)
  /-- The run has reached its end inside a function that the host entered. -/
  | leave
  deriving DecidableEq

/-- The message of a cause. -/
def Cause.message : Cause → Text
  | .notCallable => "not a function"
  | .emptyPropertyKey => "property name length was 0"
  | .frameLimit => "call frame limit exceeded"
  | .unbound name => name ++ Text.ofString " is not defined"
  | .assertion left right =>
    Text.ofString "assertion failed: " ++ left ++ Text.ofString " != " ++ right
  | .assertionArguments count =>
    Text.ofString "assert_equal expects 2 arguments, got " ++ Text.ofNat count
  | .invokeArguments => "invoke expects a function"
  | .arrayLength length => Text.ofString "invalid array length " ++ length
  | .leave => "leave"

/-- A place in a program: an address and the opcode there. -/
structure Place where
  pc : Int64
  opcode : Opcode
  deriving DecidableEq

/-- How a place is written in front of a message. -/
def Place.shown (place : Place) : Text :=
  Text.ofString "pc " ++ Text.ofInt place.pc.toInt ++ Text.ofString " (" ++ place.opcode.name ++
    Text.ofString "): "

/-- A cause and the places it has passed, outermost first. -/
structure ScriptFault where
  trail : List Place := []
  cause : Cause
  deriving DecidableEq

/-- The fault seen from one place further out. -/
def ScriptFault.passing (fault : ScriptFault) (place : Place) : ScriptFault :=
  { fault with trail := place :: fault.trail }

/-- The message of a script fault. -/
def ScriptFault.message (fault : ScriptFault) : Text :=
  fault.trail.flatMap Place.shown ++ fault.cause.message

/-- Why an instruction stream is malformed. -/
inductive Malformation where
  | counterRange (size : Nat)
  | operandUnderflow
  | emptyAccumulator
  | missingObject
  | unknownLiteral (kind : DatumKind)
  | notAName (kind : DatumKind)
  | notACount (kind : DatumKind) (shown : Text)
  | accumulatorNotArray
  | noFrame
  | unknownOpcode (opcode : Opcode)
  deriving DecidableEq

/-- The reason as text. -/
def Malformation.reason : Malformation → Text
  | .counterRange size =>
    Text.ofString "program counter out of range [0, " ++ Text.ofNat size ++ Text.ofString ")"
  | .operandUnderflow => "operand stack underflow"
  | .emptyAccumulator => "pushim with an empty accumulator"
  | .missingObject => "push of a nil embedded object"
  | .unknownLiteral kind => Text.ofString "unknown type was asked to push: " ++ kind.label
  | .notAName kind => Text.ofString "expecting a name operand, got " ++ kind.label
  | .notACount kind shown =>
    Text.ofString "expecting a count operand, got " ++ kind.label ++ Text.ofString " " ++ shown
  | .accumulatorNotArray => "cpya without an array in the accumulator"
  | .noFrame => "return without a call frame"
  | .unknownOpcode opcode => Text.ofString "unknown opcode " ++ opcode.name

/-- Why the machine cannot take a step that its program asks for. -/
inductive Breakdown where
  /-- The step needs a scope store and none is attached. -/
  | noScopes
  /-- A function entered by the host has consumed receivers below those it found. -/
  | receiversConsumed
  deriving DecidableEq

/-- What ends a run before its end. -/
inductive Fault where
  | script (fault : ScriptFault)
  | malformed (place : Place) (malformation : Malformation)
  | breakdown (breakdown : Breakdown)
  deriving DecidableEq

/-- The message of a fatal reason; the place is left out when the address is negative. -/
def fatalMessage (place : Place) (reason : Text) : Text :=
  if place.pc < 0 then Text.ofString "fatal: " ++ reason
  else Text.ofString "fatal: " ++ place.shown ++ reason

end ScriptEngine
