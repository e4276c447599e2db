/-
This file lays digits out as text. A layout says which decimal exponents are written
positionally, how wide an exponent is written, and whether zero keeps its sign; the digits
are always the shortest ones that read back. The engine has a layout for the text of a value
and one for operands in listings, and two plain ones, with an exponent always and never.
-/

import ScriptEngine.Number.Shortest

namespace ScriptEngine.Number

/-- The decisions of a number format. -/
structure Layout where
  /-- The least decimal exponent written positionally. -/
  positionalFrom : Int
  /-- The least decimal exponent above those written positionally. -/
  positionalBelow : Int
  /-- The least number of digits of a written exponent. -/
  exponentWidth : Nat
  /-- Whether a negative zero shows its sign. -/
  signedZero : Bool
  deriving DecidableEq, Repr

namespace Layout

/-- Values print positionally from `1e-6` up to below `1e21`, and zero has no sign. -/
def value : Layout := ⟨-6, 21, 1, false⟩

/-- Listings print positionally from `1e-4` up to below `1e6`, and zero keeps its sign. -/
def listing : Layout := ⟨-4, 6, 2, true⟩

/-- Every number is written with an exponent, of two digits at least. -/
def exponential : Layout := ⟨0, 0, 2, true⟩

/-- Every number is written positionally: the decimal exponent of no double is out of these
bounds. -/
def fixed : Layout := ⟨-400, 400, 2, true⟩

/-- Digits with a point, or with zeros before or behind, so that the last digit has the place
`10 ^ exponent`. -/
def positional (digits : Text) (exponent : Int) : Text :=
  if 0 ≤ exponent then digits ++ List.replicate exponent.toNat 48
  else
    let places := (-exponent).toNat
    if places < digits.length then
      digits.take (digits.length - places) ++ 46 :: digits.drop (digits.length - places)
    else [48, 46] ++ List.replicate (places - digits.length) 48 ++ digits

/-- A numeral with zeros in front up to a width. -/
def padded (width : Nat) (digits : Text) : Text :=
  List.replicate (width - digits.length) 48 ++ digits

/-- One digit, a point and the others, and the exponent of the first digit. -/
def scientific (width : Nat) (digits : Text) (exponent : Int) : Text :=
  let mantissa := match digits with
    | [] => []
    | [digit] => [digit]
    | digit :: rest => digit :: 46 :: rest
  let sign := if exponent < 0 then 45 else 43
  mantissa ++ 101 :: sign :: padded width (Text.ofNat exponent.natAbs)

/-- The text of a positive decimal. -/
def digits (layout : Layout) (digits : Nat) (exponent : Int) : Text :=
  let text := Text.ofNat digits
  let leading := exponent + text.length - 1
  if layout.positionalFrom ≤ leading ∧ leading < layout.positionalBelow then
    positional text exponent
  else scientific layout.exponentWidth text leading

/-- The text with a minus sign in front, if there is one. -/
def withSign (negative : Bool) (text : Text) : Text :=
  if negative then 45 :: text else text

/-- The text of a double. -/
def write (layout : Layout) (number : Float) : Text :=
  match exact number with
  | .notANumber => "NaN"
  | .infinite negative => withSign negative "Infinity"
  | .finite negative significand exponent =>
    if significand = 0 then withSign (negative && layout.signedZero) "0"
    else
      let (found, place) := shortest significand exponent
      withSign negative (layout.digits found place)

end Layout

end ScriptEngine.Number
