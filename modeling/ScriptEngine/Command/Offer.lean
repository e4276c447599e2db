/-
This file says what a host may offer as the action of a command: a function with any number
of parameters that answers nothing, or else an error.
-/

import ScriptEngine.Text

namespace ScriptEngine

/-- What a function can answer. -/
inductive AnswerType where
  | error
  | other
  deriving DecidableEq, Repr

/-- What a host offers as an action. -/
inductive Offer where
  | function (parameters : Nat) (answers : List AnswerType)
  /-- A value that is no function, by the name of its type. -/
  | value (typeName : Text)
  deriving DecidableEq

/-- Why an offer is refused. -/
inductive OfferError where
  | notFunction (typeName : Text)
  | severalAnswers
  | otherAnswer
  deriving DecidableEq

/-- The message of an offer error. -/
def OfferError.message : OfferError → Text
  | .notFunction typeName => Text.ofString "must be function, got " ++ typeName
  | .severalAnswers => "must return 0 or 1 value"
  | .otherAnswer => "must return error"

/-- How many words the command of an offer takes, if the offer is accepted. -/
def Offer.arity : Offer → Except OfferError Nat
  | .value typeName => throw (.notFunction typeName)
  | .function parameters [] => return parameters
  | .function parameters [.error] => return parameters
  | .function _ [.other] => throw .otherAnswer
  | .function _ (_ :: _ :: _) => throw .severalAnswers

end ScriptEngine
