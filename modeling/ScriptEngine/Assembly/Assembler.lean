/-
This file assembles programs. A source is a sequence of lines; a line holds an optional
label and then an instruction or a directive. Reading the lines in order gives a draft, in
which labels that are used are still names; linking replaces them by addresses. A function
is declared where it is first pushed, and pushed again by its name.
-/

import ScriptEngine.Assembly.Lexer
import ScriptEngine.Assembly.SourceError
import ScriptEngine.Number.Decimal
import ScriptEngine.Program

namespace ScriptEngine.Assembly

/-! ### Reading tokens -/

/-- Reads from the tokens of a line. -/
abbrev Reader := StateT (List Token) (Except SourceError)

/-- Fails at the place of a token. -/
def fail {Result : Type} (token : Token) (problem : Problem) : Reader Result :=
  throw ⟨token.position, problem⟩

/-- The next token, which is not taken. -/
def peek : Reader Token := do
  return (← get).headD {}

/-- Takes the next token whatever it is. -/
def skip : Reader Unit :=
  modify List.tail

/-- Takes the next token, which has to be valid. -/
def next : Reader Token := do
  let token ← peek
  skip
  if token.kind = .invalid then fail token (.invalidToken token.text)
  return token

/-- Takes an identifier. -/
def identifier : Reader Token := do
  let token ← next
  if token.kind ≠ .identifier then fail token (.expectingKind .identifier token)
  return token

/-- Takes a number. -/
def number : Reader Token := do
  let token ← next
  if token.kind ≠ .number then fail token (.expectingKind .number token)
  return token

/-- Takes a certain symbol. -/
def symbol (text : Text) : Reader Unit := do
  let token ← next
  unless token.is .symbol text do fail token (.expectingSymbol text token)

/-- Takes the end of the line. -/
def endOfLine : Reader Unit := do
  let token ← next
  if token.kind ≠ .endOfLine ∧ token.kind ≠ .endOfInput then fail token (.unexpected token)

/-! ### Drafts -/

/-- A label that is used, and where. -/
structure LabelUse where
  label : Text
  position : Position
  deriving DecidableEq, Inhabited

/-- The label that a token names. -/
def Token.labelUse (token : Token) : LabelUse :=
  ⟨token.text, token.position⟩

/-- What has been read of a source: instructions, the addresses of labels, and the labels that
jumps, functions and directives use. -/
structure Draft where
  code : Array (Instruction Nat) := #[]
  labels : List (Text × Nat) := []
  jumps : List (Nat × LabelUse) := []
  functions : Array (Declaration × LabelUse) := #[]
  entry : Option LabelUse := none
  stop : Option LabelUse := none
  deriving Inhabited

namespace Draft

/-- The address of a label. -/
def address? (draft : Draft) (label : Text) : Option Nat :=
  draft.labels.lookup label

/-- The number of the function declared under a name. -/
def function? (draft : Draft) (name : Text) : Option Nat :=
  draft.functions.findIdx? fun function => function.1.name = name

end Draft

/-! ### Functions -/

/-- The parameter names up to the closing bracket; between two of them stands a comma. -/
def parametersFrom : List Token → List Text → Except SourceError (List Text × List Token)
  | [], names => return (names, [])
  | token :: rest, names => do
    if token.kind = .invalid then throw ⟨token.position, .invalidToken token.text⟩
    if token.is .symbol ")" then return (names, rest)
    if names.isEmpty then
      if token.kind ≠ .identifier then throw ⟨token.position, .expectingParameter token⟩
      parametersFrom rest [token.text]
    else
      unless token.is .symbol "," do throw ⟨token.position, .expectingSymbol "," token⟩
      match rest with
      | [] => return (names, [])
      | token :: rest =>
        if token.kind = .invalid then throw ⟨token.position, .invalidToken token.text⟩
        if token.kind ≠ .identifier then throw ⟨token.position, .expectingParameter token⟩
        parametersFrom rest (names ++ [token.text])

/-- Takes the parameter names and the closing bracket. -/
def parameters : Reader (List Text) := do
  let (names, rest) ← parametersFrom (← get) []
  set rest
  return names

/-- Takes what a function constructs, if it is said. -/
def construct : Reader ConstructKind := do
  let token ← peek
  if token.kind = .identifier then
    skip
    match ConstructKind.ofName? token.text with
    | some kind => return kind
    | none => fail token (.unknownConstruct token.text)
  else return .object

/-- Takes the rest of a function declaration, from the opening bracket on. -/
def declaration (name : Text) : Reader (Declaration × LabelUse) := do
  symbol "("
  let params ← parameters
  symbol "@"
  let label ← identifier
  let constructs ← construct
  return ({ name, params, constructs }, label.labelUse)

/-- Adds a function to a draft, and gives its number. -/
def Draft.addFunction (draft : Draft) (function : Declaration × LabelUse) : Draft × Nat :=
  ({ draft with functions := draft.functions.push function }, draft.functions.size)

/-- Takes a function behind the word `func`: a declaration with or without a name, or the name of
an earlier one. -/
def function (draft : Draft) : Reader (Draft × Nat) := do
  let token ← peek
  if token.kind = .identifier then
    skip
    if (← peek).is .symbol "(" then
      match draft.function? token.text with
      | some _ => fail token (.duplicatedFunction token.text)
      | none => return draft.addFunction (← declaration token.text)
    else
      match draft.function? token.text with
      | some index => return (draft, index)
      | none => fail token (.undefinedFunction token.text)
  else return draft.addFunction (← declaration [])

/-! ### Operands -/

/-- The double that a number token denotes; a token out of range is refused. -/
def literalNumber? (text : Text) : Option Float :=
  match (Number.Decimal.read? text).map Number.Decimal.toFloat with
  | some value => if value.isInf then none else some value
  | none => none

/-- The operand that a word denotes by itself. -/
def wordDatum? (word : Text) : Option (Datum Nat) :=
  if word = "true" then some (.ofBool true)
  else if word = "false" then some (.ofBool false)
  else if word = "null" then some {}
  else if word = "NaN" then some (.ofNumber Number.notANumber)
  else if word = "Infinity" ∨ word = "+Infinity" then some (.ofNumber (Number.infinity false))
  else if word = "-Infinity" then some (.ofNumber (Number.infinity true))
  else none

/-- Takes the operand of a push. -/
def literal (draft : Draft) : Reader (Draft × Datum Nat) := do
  let token ← next
  match token.kind with
  | .number =>
    match literalNumber? token.text with
    | some value => return (draft, .ofNumber value)
    | none => fail token (.badNumber token.text)
  | .text => return (draft, .ofText token.text)
  | .identifier =>
    if token.text = "func" then
      let (draft, index) ← function draft
      return (draft, .ofObject (some index))
    else
      match wordDatum? token.text with
      | some datum => return (draft, datum)
      | none => fail token (.expectingLiteral token)
  | _ => fail token (.expectingLiteral token)

/-- Takes a name. -/
def nameDatum : Reader (Datum Nat) := do
  let token ← next
  match token.kind with
  | .identifier => return .ofName token.text
  | .text => return .ofText token.text
  | _ => fail token (.expectingName token)

/-- Takes a count. -/
def countDatum : Reader (Datum Nat) := do
  let token ← number
  match Text.int64? token.text with
  | some count =>
    if count < 0 then fail token (.badCount token.text)
    else return .ofNumber (Number.ofNat count.toNatClampNeg)
  | none => fail token (.badCount token.text)

/-- Takes a jump target: a label, or an offset. -/
def jumpTarget : Reader (LabelUse ⊕ Int64) := do
  let token ← next
  if token.is .symbol "@" then return .inl (← identifier).labelUse
  else if token.kind = .number then
    match Text.int64? token.text with
    | some offset => return .inr offset
    | none => fail token (.badJump token.text)
  else fail token (.expectingJump token)

/-! ### Lines -/

/-- Adds an instruction to a draft. -/
def Draft.addInstruction (draft : Draft) (instruction : Instruction Nat) : Draft :=
  { draft with code := draft.code.push instruction }

/-- Takes the operand of an opcode, and adds the instruction. -/
def instruction (draft : Draft) (opcode : Opcode) : Reader Draft := do
  match opcode.operandClass with
  | .none => return draft.addInstruction { opcode }
  | .name => return draft.addInstruction { opcode, datum := ← nameDatum }
  | .count => return draft.addInstruction { opcode, datum := ← countDatum }
  | .literal =>
    let (draft, datum) ← literal draft
    return draft.addInstruction { opcode, datum }
  | .jump =>
    match ← jumpTarget with
    | .inl use =>
      let draft := { draft with jumps := draft.jumps ++ [(draft.code.size, use)] }
      return draft.addInstruction { opcode }
    | .inr offset => return draft.addInstruction { opcode, jump := offset }

/-- Takes the label of a directive. -/
def directive (draft : Draft) (token : Token) : Reader Draft := do
  let label := (← identifier).labelUse
  if token.text = ".entry" then return { draft with entry := some label }
  else if token.text = ".end" then return { draft with stop := some label }
  else fail token (.unknownDirective token.text)

/-- Takes what follows a first word that is no label. -/
def statement (draft : Draft) (token : Token) : Reader Draft := do
  let draft ←
    if token.text.head? = some 46 then directive draft token
    else
      match Opcode.ofName? token.text with
      | some opcode => instruction draft opcode
      | none => fail token (.unknownOpcode token.text)
  endOfLine
  return draft

/-- Takes the first word of a line, or of what a label leaves of it; a line may be empty. -/
def firstWord? : Reader (Option Token) := do
  let token ← next
  match token.kind with
  | .endOfInput | .endOfLine => return none
  | .identifier => return some token
  | _ => fail token (.unexpected token)

/-- Takes a line. -/
def line (draft : Draft) : Reader Draft := do
  match ← firstWord? with
  | none => return draft
  | some token =>
    if (← peek).is .symbol ":" then
      skip
      if (draft.address? token.text).isSome then fail token (.duplicatedLabel token.text)
      let draft := { draft with labels := draft.labels ++ [(token.text, draft.code.size)] }
      match ← firstWord? with
      | none => return draft
      | some token => statement draft token
    else statement draft token

/-- The tokens line by line; each line has its end as the last token. -/
def tokenLinesFrom : (line : List Token) → List Token → List (List Token)
  | _, [] => []
  | line, token :: rest =>
    if token.kind = .endOfLine ∨ token.kind = .endOfInput then
      (line ++ [token]) :: tokenLinesFrom [] rest
    else tokenLinesFrom (line ++ [token]) rest

/-- Reads lines one after another. -/
def readLines : Draft → List (List Token) → Except SourceError Draft
  | draft, [] => return draft
  | draft, tokens :: rest => do
    let draft ← (line draft).run' tokens
    readLines draft rest

/-! ### Linking -/

namespace Draft

/-- The address of a label that is used. -/
def resolve (draft : Draft) (use : LabelUse) : Except SourceError Nat :=
  match draft.address? use.label with
  | some address => return address
  | none => throw ⟨use.position, .undefinedLabel use.label⟩

/-- Gives the jumps in a list their offsets. -/
def linkJumps (draft : Draft) :
    List (Nat × LabelUse) → Array (Instruction Nat) → Except SourceError (Array (Instruction Nat))
  | [], code => return code
  | (pc, use) :: rest, code => do
    let target ← draft.resolve use
    let offset := Int64.ofNat target - Int64.ofNat pc - 1
    draft.linkJumps rest (code.modify pc fun instruction => { instruction with jump := offset })

/-- The functions of a draft with their entry addresses. -/
def linkFunctions (draft : Draft) : Except SourceError (Array Declaration) :=
  draft.functions.mapM fun (declaration, use) => do
    return { declaration with entry := Int64.ofNat (← draft.resolve use) }

/-- The address of a directive, or what stands in for it. -/
def resolveOr (draft : Draft) (use : Option LabelUse) (address : Nat) : Except SourceError Nat :=
  match use with
  | some use => draft.resolve use
  | none => return address

/-- Replaces the labels that are used by addresses: those of jumps first, then those of
functions, of `.entry` and of `.end`. -/
def addresses (draft : Draft) :
    Except SourceError (Array (Instruction Nat) × Array Declaration × Nat × Nat) := do
  let code ← draft.linkJumps draft.jumps draft.code
  let items ← draft.linkFunctions
  let entry ← draft.resolveOr draft.entry 0
  let stop ← draft.resolveOr draft.stop draft.code.size
  return (code, items, entry, stop)

/-- The program of a draft. -/
def link (draft : Draft) : Except AssemblyError Program := do
  let (code, items, entry, stop) ← draft.addresses.mapError AssemblyError.source
  if stop < entry then throw (.entryAfterEnd entry stop)
  return { code, items, start := Int64.ofNat entry, stop := Int64.ofNat stop }

end Draft

/-- The program that a source denotes. -/
def assemble (source : Text) : Except AssemblyError Program := do
  let draft ← (readLines {} (tokenLinesFrom [] (tokens source))).mapError AssemblyError.source
  draft.link

/-- The program of one instruction that a source denotes. -/
def assembleInstruction (source : Text) : Except AssemblyError Program := do
  let program ← assemble source
  if program.code.size = 1 then return program
  else throw (.notOneInstruction program.code.size)

end ScriptEngine.Assembly
