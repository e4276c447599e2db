/-
This file works out the three instructions that scripts reach properties with. Two of them read a
property, under a name that is written in the instruction or is the text of an operand, and they
lead to the same machine: the cell that was read is the topmost operand, and what it was read of is
the topmost receiver. The third writes what one operand holds into the cell of another, if that
takes a new value. Each is given as the machine it leads to.
-/

import ScriptEngine.Proofs.Moves

namespace ScriptEngine

/-- The operand is a name or a text, and it says this. -/
def Datum.Names {Reference : Type} (datum : Datum Reference) (name : Text) : Prop :=
  (datum.kind = .name ∨ datum.kind = .text) ∧ datum.text = name

namespace Heap

/-- The cell behind a name of what a cell holds. -/
def propertyOf (heap : Heap) (owner : CellId) (name : Text) : CellId :=
  (getProperty (heap.content owner) name heap).1

/-- The memory once a cell has been written into, if it takes a new value. -/
def written (heap : Heap) (target : CellId) (content : Content) : Heap :=
  if heap.writable target then (setContent target content heap).2 else heap

end Heap

namespace Machine

variable {machine : Machine} {instruction : Instruction CellId} {lower : Array Operand}

theorem nameOf_of_names {datum : Datum CellId} {name : Text} (names : datum.Names name) :
    nameOf datum = pure name := by
  obtain ⟨isName | isText, rfl⟩ := names
  · unfold nameOf
    rw [isName]
  · unfold nameOf
    rw [isText]

/-! ### Pushing a cell and testing it -/

/-- The machine with a cell on top of the operands that are left, and the flag that it gives. -/
def showing (machine : Machine) (lower : Array Operand) (operand : Operand) : Machine :=
  { machine with
    operands := lower.push operand
    flags :=
      { zero := !(machine.heap.content operand.cell).truthy
        construct := machine.flags.construct } }

theorem push_setFlags (operand : Operand) :
    (do push operand; setFlags : Action Unit) machine =
      .ok () (machine.showing machine.operands operand) :=
  setFlags_of_some operand Array.back?_push

/-! ### Reading a property -/

/-- The machine once a property has been read. -/
def reading (machine : Machine) (lower : Array Operand) (owner : CellId) (name : Text) : Machine :=
  { machine with
    heap := (Heap.getProperty (machine.heap.content owner) name machine.heap).2
    receivers := machine.receivers.push owner }.showing lower
      { cell := machine.heap.propertyOf owner name }

theorem execute_replprop {owner : Operand} {name : Text}
    (isReading : instruction.opcode = .replprop) (names : instruction.datum.Names name)
    (operands : machine.operands = lower.push owner) :
    execute instruction machine = .ok .done (machine.reading lower owner.cell name) := by
  have topmost : machine.operands.back? = some owner := by rw [operands, Array.back?_push]
  have rest : machine.operands.pop = lower := by rw [operands, Array.pop_push]
  refine execute_of_plain (by rw [isReading]; exact Opcode.noConfusion) ?_
  unfold executePlain
  rw [isReading]
  refine (bind_of_ok (pop_of_some topmost)).trans ?_
  rw [rest, nameOf_of_names names]
  exact push_setFlags _

theorem execute_index {owner key : Operand} (isReading : instruction.opcode = .index)
    (operands : machine.operands = (lower.push owner).push key) :
    execute instruction machine =
      .ok .done (machine.reading lower owner.cell (machine.heap.text key.cell)) := by
  have topmost : machine.operands.back? = some key := by rw [operands, Array.back?_push]
  have rest : machine.operands.pop = lower.push owner := by rw [operands, Array.pop_push]
  refine execute_of_plain (by rw [isReading]; exact Opcode.noConfusion) ?_
  unfold executePlain
  rw [isReading]
  refine (bind_of_ok (pop_of_some topmost)).trans ?_
  rw [rest]
  refine (bind_of_ok (pop_of_some Array.back?_push)).trans ?_
  dsimp only
  rw [Array.pop_push]
  exact setFlags_of_some { cell := machine.heap.propertyOf owner.cell _ } Array.back?_push

/-! ### Pushing a text -/

/-- The machine once a text has been pushed. -/
def texting (machine : Machine) (text : Text) : Machine :=
  { machine with
    heap := (Heap.allocateContent (.text text) machine.heap).2 }.showing machine.operands
      { cell := ⟨machine.heap.cells.size⟩ }

theorem execute_push_text (isPush : instruction.opcode = .push)
    (isText : instruction.datum.kind = .text) :
    execute instruction machine = .ok .done (machine.texting instruction.datum.text) := by
  refine execute_of_plain (by rw [isPush]; exact Opcode.noConfusion) ?_
  unfold executePlain literal
  rw [isPush, isText]
  exact push_setFlags _

/-! ### Writing into a cell -/

/-- The machine once the second operand has been written into the topmost one. -/
def storing (machine : Machine) (lower : Array Operand) (source : CellId) (target : Operand) :
    Machine :=
  { machine with
    heap := machine.heap.written target.cell (machine.heap.content source) }.showing lower target

theorem execute_store {source target : Operand} (isStore : instruction.opcode = .store)
    (operands : machine.operands = (lower.push source).push target) :
    execute instruction machine = .ok .done (machine.storing lower source.cell target) := by
  have topmost : machine.operands.back? = some target := by rw [operands, Array.back?_push]
  have rest : machine.operands.pop = lower.push source := by rw [operands, Array.pop_push]
  refine execute_of_plain (by rw [isStore]; exact Opcode.noConfusion) ?_
  unfold executePlain
  rw [isStore]
  refine (bind_of_ok (pop_of_some topmost)).trans ?_
  rw [rest]
  refine (bind_of_ok (pop_of_some Array.back?_push)).trans ?_
  rw [Array.pop_push]
  change (if machine.heap.writable target.cell then _ else _ : Action Unit) _ = _
  unfold storing Heap.written
  split
  · exact push_setFlags target
  · exact push_setFlags target

end Machine

end ScriptEngine
