/-
This file lists the instructions of the machine. Each has a code, which is its place in the
list, and a name, which is how assembly writes it; a code beyond the list still is an
opcode, one that no run can execute.
-/

import ScriptEngine.Text

namespace ScriptEngine

/-- What an instruction does. -/
inductive Opcode where
  | noop
  | fetch
  | store
  | push
  | pushim
  | poprop
  | replprop
  | index
  | res
  | news
  | cpya
  | maps
  | lts
  | gts
  | ltes
  | gtes
  | eqs
  | neqs
  | adds
  | subs
  | muls
  | divs
  | shls
  | shrs
  | rems
  | bors
  | bands
  | ors
  | ands
  | xors
  | loopz
  | jmp
  | call
  | ret
  | jmpz
  | leave
  | markst
  | pushthis
  | inc
  | dec
  | snot
  | bnot
  | pinc
  | pdec
  | jmpnz
  | unknown (beyond : Fin 211)
  deriving DecidableEq, Repr, Inhabited

namespace Opcode

/-- The opcodes that a run can execute, in the order of their codes. -/
def valid : List Opcode :=
  [.noop, .fetch, .store, .push, .pushim, .poprop, .replprop, .index, .res, .news, .cpya,
   .maps, .lts, .gts, .ltes, .gtes, .eqs, .neqs, .adds, .subs, .muls, .divs, .shls, .shrs,
   .rems, .bors, .bands, .ors, .ands, .xors, .loopz, .jmp, .call, .ret, .jmpz, .leave, .markst,
   .pushthis, .inc, .dec, .snot, .bnot, .pinc, .pdec, .jmpnz]

/-- The name of an opcode. -/
def name : Opcode → Text
  | .noop => "noop"
  | .fetch => "fetch"
  | .store => "store"
  | .push => "push"
  | .pushim => "pushim"
  | .poprop => "poprop"
  | .replprop => "replprop"
  | .index => "index"
  | .res => "res"
  | .news => "news"
  | .cpya => "cpya"
  | .maps => "maps"
  | .lts => "lts"
  | .gts => "gts"
  | .ltes => "ltes"
  | .gtes => "gtes"
  | .eqs => "eqs"
  | .neqs => "neqs"
  | .adds => "adds"
  | .subs => "subs"
  | .muls => "muls"
  | .divs => "divs"
  | .shls => "shls"
  | .shrs => "shrs"
  | .rems => "rems"
  | .bors => "bors"
  | .bands => "bands"
  | .ors => "ors"
  | .ands => "ands"
  | .xors => "xors"
  | .loopz => "loopz"
  | .jmp => "jmp"
  | .call => "call"
  | .ret => "ret"
  | .jmpz => "jmpz"
  | .leave => "leave"
  | .markst => "markst"
  | .pushthis => "pushthis"
  | .inc => "inc"
  | .dec => "dec"
  | .snot => "snot"
  | .bnot => "bnot"
  | .pinc => "pinc"
  | .pdec => "pdec"
  | .jmpnz => "jmpnz"
  | .unknown beyond => Text.ofString "opcode(" ++ Text.ofNat (45 + beyond.val) ++ Text.ofString ")"

/-- The code of an opcode. -/
def code : Opcode → UInt8
  | .unknown beyond => (45 + beyond.val).toUInt8
  | opcode => (valid.findIdx (· = opcode)).toUInt8

/-- The opcode with a code. -/
def ofCode (code : UInt8) : Opcode :=
  match valid[code.toNat]? with
  | some opcode => opcode
  | none => .unknown (Fin.ofNat 211 (code.toNat - 45))

/-- The opcode with a name. -/
def ofName? (name : Text) : Option Opcode :=
  valid.find? fun opcode => opcode.name = name

/-- Whether a run can execute an opcode. -/
def isValid : Opcode → Bool
  | .unknown _ => false
  | _ => true

/-- Whether an opcode uses the jump offset of its instruction. -/
def isJump : Opcode → Bool
  | .jmp | .jmpz | .jmpnz => true
  | _ => false

/-- The operand that an opcode takes. -/
inductive OperandClass where
  | none
  | name
  | count
  | jump
  | literal
  deriving DecidableEq, Repr

/-- The operand that an opcode takes in assembly. -/
def operandClass : Opcode → OperandClass
  | .fetch | .news | .replprop | .maps => .name
  | .poprop | .res | .cpya | .call => .count
  | .jmp | .jmpz | .jmpnz => .jump
  | .push => .literal
  | _ => .none

end Opcode

end ScriptEngine
