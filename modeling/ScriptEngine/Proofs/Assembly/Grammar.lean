/-
This file gives the grammar of assembly sources. A source is made of lines, and a line of an
optional label and an optional statement: a directive, or an instruction with an operand of the
class that its opcode takes. A phrase of the grammar is a value of a type that has no others, and
it is spelt by certain words. What the words of a single phrase cannot show is said of all lines
together: labels and functions are declared once, a function in front of its uses, the labels that
are used are declared, and the program does not start behind its end.
-/

import Mathlib
import ScriptEngine.Number.Decimal
import ScriptEngine.Program.Opcode
import ScriptEngine.Proofs.Assembly.Lexing
import ScriptEngine.Proofs.Text.Integers

namespace ScriptEngine.Assembly

open Text (IsInteger)

/-! ### Phrases -/

/-- A text is a decimal literal within the range of doubles. -/
def IsDouble (numeral : Text) : Prop :=
  ∃ decimal, Number.Decimal.read? numeral = some decimal ∧ decimal.toFloat.isInf = false

/-- A name, which has at least one character. -/
abbrev Name := { text : Text // text ≠ [] }

/-- What a function can be said to construct. -/
def constructWords : List Text := ["object", "array", "boolean", "number"]

/-- The words that are operands by themselves. -/
def literalWords : List Text :=
  ["true", "false", "null", "NaN", "Infinity", "+Infinity", "-Infinity"]

/-- What follows the word `func`: the name of a function that has been declared, or a
declaration. -/
inductive FunctionPhrase where
  | reference (name : Name)
  | declaration (name : Option Name) (params : List Text) (label : Text)
      (constructs : Option { word // word ∈ constructWords })

/-- An operand of a class. -/
inductive OperandPhrase : Opcode.OperandClass → Type where
  | none : OperandPhrase .none
  | name (text : Text) : OperandPhrase .name
  | quotedName (text : Text) : OperandPhrase .name
  | count (numeral : Text) (isCount : ∃ count, IsInteger numeral count ∧ 0 ≤ count) :
      OperandPhrase .count
  | target (label : Text) : OperandPhrase .jump
  | offset (numeral : Text) (isOffset : ∃ offset, IsInteger numeral offset) : OperandPhrase .jump
  | number (numeral : Text) (isDouble : IsDouble numeral) : OperandPhrase .literal
  | quoted (text : Text) : OperandPhrase .literal
  | word (text : Text) (known : text ∈ literalWords) : OperandPhrase .literal
  | function (phrase : FunctionPhrase) : OperandPhrase .literal

/-- A directive, or an instruction with an `OperandPhrase` of the class that its opcode takes. -/
inductive StatementPhrase where
  | entry (label : Text)
  | stop (label : Text)
  | instruction (opcode : Opcode) (valid : opcode ∈ Opcode.valid)
      (operand : OperandPhrase opcode.operandClass)

/-- A line: a label and a `StatementPhrase`, either of which may be missing. -/
structure LinePhrase where
  label : Option Text := none
  statement : Option StatementPhrase := none

/-! ### Words -/

/-- The words of parameters, with a comma between neighbours. -/
def parametersWords (params : List Text) : List Word :=
  (params.map ((.identifier, ·))).intersperse (.symbol, ",")

namespace FunctionPhrase

/-- The words behind the name of a function that is declared. -/
def declarationWords (params : List Text) (label : Text)
    (constructs : Option { word // word ∈ constructWords }) : List Word :=
  (.symbol, Text.ofString "(") :: (parametersWords params ++
    (.symbol, Text.ofString ")") :: (.symbol, Text.ofString "@") :: (.identifier, label) ::
      constructs.toList.map (.identifier, ·.val))

/-- The words of what follows `func`. -/
def words : FunctionPhrase → List Word
  | reference name => [(.identifier, name.val)]
  | declaration name params label constructs =>
    name.toList.map (.identifier, ·.val) ++ declarationWords params label constructs

end FunctionPhrase

/-- The words of an operand. -/
def OperandPhrase.words {operand : Opcode.OperandClass} : OperandPhrase operand → List Word
  | .none => []
  | .name text | .word text _ => [(.identifier, text)]
  | .quotedName text | .quoted text => [(.text, text)]
  | .count numeral _ | .offset numeral _ | .number numeral _ => [(.number, numeral)]
  | .target label => [(.symbol, "@"), (.identifier, label)]
  | .function phrase => (.identifier, "func") :: phrase.words

namespace StatementPhrase

/-- The word that a statement starts with. -/
def keyword : StatementPhrase → Text
  | entry _ => ".entry"
  | stop _ => ".end"
  | instruction opcode _ _ => opcode.name

/-- The words behind the first. -/
def operandWords : StatementPhrase → List Word
  | entry label | stop label => [(.identifier, label)]
  | instruction _ _ operand => operand.words

/-- The words of a statement. -/
def words (phrase : StatementPhrase) : List Word :=
  (.identifier, phrase.keyword) :: phrase.operandWords

end StatementPhrase

namespace LinePhrase

/-- The words of the label of a line. -/
def labelWords : Option Text → List Word
  | some label => [(.identifier, label), (.symbol, ":")]
  | none => []

/-- The words of a line without its end. -/
def words (line : LinePhrase) : List Word :=
  labelWords line.label ++ (line.statement.map StatementPhrase.words).getD []

end LinePhrase

/-- The words of a source: lines with the ends of lines between them, and the end of the input. -/
def sourceWords (lines : List LinePhrase) : List Word :=
  List.intercalate [(.endOfLine, [])] (lines.map LinePhrase.words) ++ [(.endOfInput, [])]

/-! ### What lines declare and use -/

namespace FunctionPhrase

/-- The name of a function that is declared. -/
def declared? : FunctionPhrase → Option Name
  | reference _ => none
  | declaration name _ _ _ => name

/-- The label of the entry of a function that is declared. -/
def entry? : FunctionPhrase → Option Text
  | reference _ => none
  | declaration _ _ label _ => some label

/-- A function is declared if its name has not been, and used if it has. -/
def Follows (names : List Name) : FunctionPhrase → Prop
  | reference name => name ∈ names
  | declaration name _ _ _ => ∀ other ∈ name, other ∉ names

end FunctionPhrase

namespace OperandPhrase

variable {operand : Opcode.OperandClass}

/-- The label that is the target of a jump. -/
def target? : OperandPhrase operand → Option Text
  | .target label => some label
  | _ => Option.none

/-- The function that is pushed. -/
def function? : OperandPhrase operand → Option FunctionPhrase
  | .function phrase => some phrase
  | _ => Option.none

end OperandPhrase

namespace StatementPhrase

/-- Whether a statement is an instruction. -/
def isInstruction : StatementPhrase → Bool
  | instruction _ _ _ => true
  | _ => false

/-- The label that is the target of a jump. -/
def target? : StatementPhrase → Option Text
  | instruction _ _ operand => operand.target?
  | _ => none

/-- The function that is pushed. -/
def function? : StatementPhrase → Option FunctionPhrase
  | instruction _ _ operand => operand.function?
  | _ => none

/-- The label that the program starts at. -/
def entry? : StatementPhrase → Option Text
  | entry label => some label
  | _ => none

/-- The label that the program ends at. -/
def stop? : StatementPhrase → Option Text
  | stop label => some label
  | _ => none

end StatementPhrase

namespace LinePhrase

variable (line : LinePhrase)

/-- Whether there is an instruction on a line. -/
def isInstruction : Bool := line.statement.any StatementPhrase.isInstruction

/-- The label that is the target of a jump on a line. -/
def target? : Option Text := line.statement.bind StatementPhrase.target?

/-- The function that is pushed on a line. -/
def function? : Option FunctionPhrase := line.statement.bind StatementPhrase.function?

/-- The label that a line has the program start at. -/
def entry? : Option Text := line.statement.bind StatementPhrase.entry?

/-- The label that a line has the program end at. -/
def stop? : Option Text := line.statement.bind StatementPhrase.stop?

end LinePhrase

section Lines

variable (lines : List LinePhrase)

/-- The labels that some lines declare. -/
def declaredLabels : List Text := lines.filterMap LinePhrase.label

/-- How many instructions some lines hold. -/
def instructionCount : ℕ := lines.countP LinePhrase.isInstruction

/-- The labels that jumps have as their targets. -/
def targetLabels : List Text := lines.filterMap LinePhrase.target?

/-- The names of the functions that are declared. -/
def declaredNames : List Name :=
  lines.filterMap fun line => line.function?.bind FunctionPhrase.declared?

/-- The labels of the entries of functions. -/
def entryLabels : List Text := lines.filterMap fun line => line.function?.bind FunctionPhrase.entry?

/-- The label that the program starts at; the last directive counts. -/
def startLabel? : Option Text := (lines.filterMap LinePhrase.entry?).getLast?

/-- The label that the program ends at; the last directive counts. -/
def stopLabel? : Option Text := (lines.filterMap LinePhrase.stop?).getLast?

/-- The address of a label: the number of instructions on the lines above it. -/
def labelAddress (label : Text) : ℕ :=
  instructionCount (lines.takeWhile fun line => line.label ≠ some label)

/-- The address that the program starts at. -/
def startAddress : ℕ := ((startLabel? lines).map (labelAddress lines)).getD 0

/-- The address that the program ends at. -/
def stopAddress : ℕ := ((stopLabel? lines).map (labelAddress lines)).getD (instructionCount lines)

/-- The lines go together as a program: they declare no label twice, each function that they use
`Follows` its declaration, every label that is named is declared, and the program does not start
behind its end. -/
structure Coherent : Prop where
  labels : (declaredLabels lines).Nodup
  functions : ∀ before line after, lines = before ++ line :: after →
    ∀ phrase ∈ line.function?, phrase.Follows (declaredNames before)
  targets : ∀ label ∈ targetLabels lines, label ∈ declaredLabels lines
  entries : ∀ label ∈ entryLabels lines, label ∈ declaredLabels lines
  start : ∀ label ∈ startLabel? lines, label ∈ declaredLabels lines
  stop : ∀ label ∈ stopLabel? lines, label ∈ declaredLabels lines
  ordered : startAddress lines ≤ stopAddress lines

end Lines

end ScriptEngine.Assembly
