/-
This file is the scope store: a stack of name tables above a global one that is never
removed. Names are looked up from the innermost table outward. New names go into the
innermost table, and definitions by the host into the global one.
-/

import ScriptEngine.Heap.Table

namespace ScriptEngine

/-- The open scopes, innermost first, and the global one; and the receiver that stands in where
no call has given one. -/
structure Scopes where
  opened : List Table := []
  globals : Table := {}
  receiver : CellId
  deriving DecidableEq

namespace Scopes

instance : Inhabited Scopes := ⟨{ receiver := default }⟩

/-- How many scopes are open above the global one. -/
def depth (scopes : Scopes) : Nat :=
  scopes.opened.length

/-- The cell of a name in the first of some tables that knows it. -/
def lookup (name : Text) : List Table → Option CellId
  | [] => none
  | table :: rest =>
    match table.get? name with
    | some cell => some cell
    | none => lookup name rest

/-- The cell of a name in the innermost scope that knows it. -/
def get? (scopes : Scopes) (name : Text) : Option CellId :=
  lookup name (scopes.opened ++ [scopes.globals])

/-- Binds a name in the innermost scope. -/
def bind (scopes : Scopes) (name : Text) (cell : CellId) : Scopes :=
  match scopes.opened with
  | [] => { scopes with globals := scopes.globals.insert name cell }
  | inner :: outer => { scopes with opened := inner.insert name cell :: outer }

/-- Binds a name in the global scope. -/
def define (scopes : Scopes) (name : Text) (cell : CellId) : Scopes :=
  { scopes with globals := scopes.globals.insert name cell }

/-- Opens a scope. -/
def push (scopes : Scopes) : Scopes :=
  { scopes with opened := {} :: scopes.opened }

/-- Closes the innermost scope; the global one stays. -/
def pop (scopes : Scopes) : Scopes :=
  { scopes with opened := scopes.opened.tail }

/-! ### What each operation does to the depth and to names -/

@[simp]
theorem depth_push (scopes : Scopes) : scopes.push.depth = scopes.depth + 1 := rfl

@[simp]
theorem depth_pop (scopes : Scopes) : scopes.pop.depth = scopes.depth - 1 := by
  simp [depth, pop]

@[simp]
theorem depth_define (scopes : Scopes) (name : Text) (cell : CellId) :
    (scopes.define name cell).depth = scopes.depth := rfl

@[simp]
theorem depth_bind (scopes : Scopes) (name : Text) (cell : CellId) :
    (scopes.bind name cell).depth = scopes.depth := by
  unfold bind depth
  split <;> simp_all

@[simp]
theorem pop_push (scopes : Scopes) : scopes.push.pop = scopes := rfl

@[simp]
theorem get?_bind_self (scopes : Scopes) (name : Text) (cell : CellId) :
    (scopes.bind name cell).get? name = some cell := by
  unfold bind get?
  split <;> simp_all [lookup]

end Scopes

end ScriptEngine
