/-
This file fixes what text is to the engine. A text is a finite sequence of bytes: names,
string values, sources and printed output are all of this kind, and none of them has to be
well-formed UTF-8. A literal of the library is read as the UTF-8 bytes of its characters.
-/

namespace ScriptEngine

/-- A finite sequence of bytes. -/
abbrev Text := List UInt8

namespace Text

/-- The UTF-8 bytes of a sequence of characters. -/
def ofChars (chars : List Char) : Text :=
  chars.flatMap String.utf8EncodeChar

/-- The UTF-8 bytes of a string. -/
def ofString (string : String) : Text :=
  ofChars string.toList

instance : Coe String Text := ⟨ofString⟩

@[simp]
theorem ofChars_nil : ofChars [] = [] := rfl

@[simp]
theorem ofChars_cons (char : Char) (rest : List Char) :
    ofChars (char :: rest) = String.utf8EncodeChar char ++ ofChars rest := by
  simp [ofChars]

@[simp]
theorem ofChars_append (left right : List Char) :
    ofChars (left ++ right) = ofChars left ++ ofChars right := by
  simp [ofChars]

/-! ### Numerals -/

/-- The decimal numeral of a natural number. -/
def ofNat (value : Nat) : Text :=
  (Nat.toDigits 10 value).map fun digit => digit.toNat.toUInt8

/-- The decimal numeral of an integer, with a minus sign below zero. -/
def ofInt : Int → Text
  | .ofNat value => ofNat value
  | .negSucc below => 45 :: ofNat (below + 1)

/-- The low hexadecimal digits of a number, `width` of them, in lower case. -/
def ofHex : (width : Nat) → (value : Nat) → Text
  | 0, _ => []
  | width + 1, value =>
    ofHex width (value / 16) ++ [(Nat.digitChar (value % 16)).toNat.toUInt8]

/-- The value of a decimal digit byte. -/
def digitValue? (byte : UInt8) : Option Nat :=
  if 48 ≤ byte ∧ byte ≤ 57 then some (byte.toNat - 48) else none

/-- The natural number a non-empty run of ASCII digits denotes. -/
def digits? : Text → Option Nat
  | [] => none
  | bytes => bytes.foldl (fun value byte => do
      return (← value) * 10 + (← digitValue? byte)) (some 0)

/-- The integer that an optional sign and a non-empty run of ASCII digits denote. -/
def integer? : Text → Option Int
  | 45 :: digits => (digits? digits).map fun value => -(value : Int)
  | 43 :: digits => (digits? digits).map fun value => (value : Int)
  | digits => (digits? digits).map fun value => (value : Int)

/-- A signed 64-bit integer in decimal; `none` when the text is no integer or does not fit. -/
def int64? (text : Text) : Option Int64 := do
  let value ← integer? text
  if Int64.minValue.toInt ≤ value ∧ value ≤ Int64.maxValue.toInt then some (Int64.ofInt value)
  else none

/-! ### Pieces of text -/

/-- The texts one after another, with a separator between neighbours. -/
def join (separator : Text) : List Text → Text
  | [] => []
  | [last] => last
  | first :: second :: rest => first ++ separator ++ join separator (second :: rest)

/-- The text with another one in the first place where `old` stands. -/
def replaceFirst (old new : Text) : Text → Text
  | [] => if old = [] then new else []
  | byte :: rest =>
    if old.isPrefixOf (byte :: rest) then new ++ (byte :: rest).drop old.length
    else byte :: replaceFirst old new rest

/-- A text followed by as many blanks as bring it up to `width` characters. -/
def padRight (width length : Nat) (text : Text) : Text :=
  text ++ List.replicate (width - length) 32

/-- The lines of a text; a final line without newline counts only when it is not empty. -/
def linesFrom : (line : Text) → Text → List Text
  | [], [] => []
  | line, [] => [line.reverse]
  | line, byte :: rest =>
    if byte = 10 then line.reverse :: linesFrom [] rest else linesFrom (byte :: line) rest

/-- The lines of a text, without their newlines. -/
def lines (text : Text) : List Text := linesFrom [] text

end Text

end ScriptEngine
