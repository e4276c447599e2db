/-
This file is about tables: finite maps from names to cells that remember the order in which
names were first given. Properties of objects, arrays and functions are kept in tables, and
so are the bindings of a scope. Giving a name again replaces its cell in place; removing a
name and giving it again moves it to the end.
-/

import ScriptEngine.Text

namespace ScriptEngine

/-- The identity of a value cell. -/
structure CellId where
  index : Nat
  deriving DecidableEq, Repr, Inhabited

/-- A finite map from names to cells, in the order names were first given. -/
structure Table where
  entries : List (Text × CellId) := []
  deriving DecidableEq, Inhabited

namespace Table

/-- The table without names. -/
def empty : Table := {}

/-- The first entry of a name. -/
def findEntry? (name : Text) : List (Text × CellId) → Option CellId
  | [] => none
  | (known, cell) :: rest => if known = name then some cell else findEntry? name rest

/-- The entries with one name bound, in place if it was bound before, else at the end. -/
def insertEntry (name : Text) (cell : CellId) : List (Text × CellId) → List (Text × CellId)
  | [] => [(name, cell)]
  | (known, old) :: rest =>
    if known = name then (name, cell) :: rest else (known, old) :: insertEntry name cell rest

/-- The cell of a name. -/
def get? (table : Table) (name : Text) : Option CellId :=
  findEntry? name table.entries

/-- The table with a name bound to a cell. -/
def insert (table : Table) (name : Text) (cell : CellId) : Table :=
  ⟨insertEntry name cell table.entries⟩

/-- The table without a name. -/
def erase (table : Table) (name : Text) : Table :=
  ⟨table.entries.filter fun entry => entry.1 ≠ name⟩

/-- The names in order. -/
def keys (table : Table) : List Text :=
  table.entries.map Prod.fst

/-- The number of names. -/
def size (table : Table) : Nat :=
  table.entries.length

/-! ### Looking up after a change -/

@[simp]
theorem get?_empty (name : Text) : empty.get? name = none := rfl

theorem findEntry?_insertEntry_self (name : Text) (cell : CellId)
    (entries : List (Text × CellId)) :
    findEntry? name (insertEntry name cell entries) = some cell := by
  induction entries with
  | nil => simp [insertEntry, findEntry?]
  | cons entry rest inductionHypothesis =>
    obtain ⟨known, old⟩ := entry
    by_cases same : known = name
    · simp [insertEntry, findEntry?, same]
    · simp [insertEntry, findEntry?, same, inductionHypothesis]

theorem findEntry?_insertEntry_other (name other : Text) (cell : CellId)
    (entries : List (Text × CellId)) (distinct : other ≠ name) :
    findEntry? other (insertEntry name cell entries) = findEntry? other entries := by
  induction entries with
  | nil => simp [insertEntry, findEntry?, distinct.symm]
  | cons entry rest inductionHypothesis =>
    obtain ⟨known, old⟩ := entry
    by_cases same : known = name
    · simp [insertEntry, findEntry?, same, distinct.symm]
    · simp [insertEntry, findEntry?, same, inductionHypothesis]

@[simp]
theorem get?_insert_self (table : Table) (name : Text) (cell : CellId) :
    (table.insert name cell).get? name = some cell :=
  findEntry?_insertEntry_self name cell table.entries

theorem get?_insert_other (table : Table) (name other : Text) (cell : CellId)
    (distinct : other ≠ name) : (table.insert name cell).get? other = table.get? other :=
  findEntry?_insertEntry_other name other cell table.entries distinct

end Table

end ScriptEngine
