/-
This file is about spans, which tell the executions in a log apart. A new span has a parent,
which is given or else is the span in whose context it was made; where the two are
different, the span that made it is noted besides.
-/

import ScriptEngine.Text

namespace ScriptEngine

/-- What a log says about a new span. -/
structure SpanRecord (Span : Type) where
  span : Span
  parent : Option Span
  creator : Option Span
  deriving DecidableEq

variable {Span : Type} [DecidableEq Span]

/-- The record of a new span, made in a context and perhaps with a parent of its own. -/
def SpanRecord.new (context parent : Option Span) (span : Span) : SpanRecord Span :=
  let parent := parent.or context
  { span, parent, creator := if context = parent then none else context }

/-- The text that a log has for a new span. -/
def SpanRecord.title : Text := "new span"

/-- The message of an error in the context of a span, if there is one. -/
def messageInSpan (message : Text) : Option Text → Text
  | none => message
  | some span => message ++ Text.ofString "\nspan: " ++ span

end ScriptEngine
