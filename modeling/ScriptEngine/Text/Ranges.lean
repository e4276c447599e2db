/-
This file decides membership in a class of characters that is given by ascending ranges of
code points. The search stops at the first range that starts above the code point.
-/

import ScriptEngine.Text

namespace ScriptEngine.Text

/-- Whether a code point lies in one of the ascending ranges. -/
def within : List (Nat × Nat) → Nat → Bool
  | [], _ => false
  | (low, high) :: rest, point =>
    if point < low then false else point ≤ high || within rest point

end ScriptEngine.Text
