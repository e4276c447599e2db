/-
This file turns values into text. Only arrays need care: their elements are joined with
commas, an element that is null or undefined gives the empty text, and so does an array
that is met again while it is being joined. What has been met is the path from the value
to the element, so an array that occurs twice side by side is joined twice, and the number
of arrays off the path bounds the depth.
-/

import ScriptEngine.Number.Layout
import ScriptEngine.Value.Kind

namespace ScriptEngine

/-- The text of a number. A decimal exponent from -6 up to 20 is written out with zeros; any other
one is written down, without the zero that brings it up to two digits. -/
def numberText (value : Float) : Text :=
  match Number.exact value with
  | .notANumber => "NaN"
  | .infinite negative => if negative then "-Infinity" else "Infinity"
  | .finite _ significand _ =>
    if significand = 0 then "0"
    else
      let text := Number.Layout.exponential.write value
      let exponent := (Text.integer? (text.dropWhile (· ≠ 101)).tail).getD 0
      if -6 ≤ exponent ∧ exponent < 21 then Number.Layout.fixed.write value
      else Text.replaceFirst "e+0" "e+" (Text.replaceFirst "e-0" "e-" text)

/-- The text of a function: its name and its parameters. -/
def FunctionBody.text (body : FunctionBody) : Text :=
  Text.ofString "function " ++ body.name ++ Text.ofString "(" ++ Text.join ", " body.params ++
    Text.ofString ")"

namespace Heap

/-- The arrays of memory that are not on a path. -/
def offPath (heap : Heap) (path : List ArrayId) : List Nat :=
  (List.range heap.arrays.size).filter fun index => ⟨index⟩ ∉ path

theorem offPath_cons_length_lt (heap : Heap) (path : List ArrayId) (id : ArrayId)
    (present : id.index < heap.arrays.size) (fresh : id ∉ path) :
    (heap.offPath (id :: path)).length < (heap.offPath path).length := by
  have smaller : heap.offPath (id :: path) =
      (heap.offPath path).filter fun index => (⟨index⟩ : ArrayId) ≠ id := by
    unfold offPath
    rw [List.filter_filter]
    refine List.filter_congr fun index _ => ?_
    simp [List.mem_cons, not_or]
  rw [smaller]
  refine List.length_filter_lt_length_iff_exists.mpr ⟨id.index, ?_, by simp⟩
  simp only [offPath, List.mem_filter, List.mem_range]
  exact ⟨present, by simpa using fresh⟩

/-- The text of a value, given the arrays that are being joined around it. -/
def renderWithin (heap : Heap) (path : List ArrayId) (content : Content) : Text :=
  match content with
  | .null => "null"
  | .undefined => "undefined"
  | .number value => numberText value
  | .text value => value
  | .object _ => "[object Object]"
  | .function id => (heap.function id).text
  | .array id =>
    if _ : id.index < heap.arrays.size ∧ id ∉ path then
      Text.join "," ((heap.array id).elements.toList.map fun element =>
        if (heap.content element).isNullish then []
        else heap.renderWithin (id :: path) (heap.content element))
    else []
termination_by (heap.offPath path).length
decreasing_by
  rename_i joined _
  exact offPath_cons_length_lt heap path id joined.1 joined.2

/-- The text of a value as it is found with one list of marks for all values: an array is marked
while its elements are turned into text one after another, and the mark is taken away behind the
last of them. None is found where calls nest deeper than allowed. -/
def renderMarking (heap : Heap) : (depth : Nat) → Content → StateT (List ArrayId) Option Text
  | 0, _ => failure
  | depth + 1, content => do
    match content with
    | .null => return "null"
    | .undefined => return "undefined"
    | .number value => return numberText value
    | .text value => return value
    | .object _ => return "[object Object]"
    | .function id => return (heap.function id).text
    | .array id =>
      if id ∈ (← get) then return []
      modify (id :: ·)
      let parts ← (heap.array id).elements.toList.mapM fun element =>
        if (heap.content element).isNullish then pure []
        else heap.renderMarking depth (heap.content element)
      modify (·.erase id)
      return Text.join "," parts

/-- The text of a value. -/
def render (heap : Heap) (content : Content) : Text :=
  heap.renderWithin [] content

/-- The text of what a cell holds. -/
def text (heap : Heap) (id : CellId) : Text :=
  heap.render (heap.content id)

end Heap

end ScriptEngine
