/-
This file counts the slots that bound how many programs of a batch run at a time.
-/

namespace ScriptEngine

/-- Slots, some of them held. There is at least one, and no more are held than there are. -/
structure Slots where
  capacity : Nat
  held : Nat := 0
  capacity_pos : 0 < capacity := by omega
  held_le : held ≤ capacity := by omega

namespace Slots

/-- Slots for a number of jobs, none of them held. -/
def new (jobs : Int) : Slots :=
  { capacity := max jobs 1 |>.toNat }

/-- Takes a slot, if one is free. -/
def acquire? (slots : Slots) : Option Slots :=
  if free : slots.held < slots.capacity then
    some { slots with held := slots.held + 1, held_le := free }
  else none

/-- Gives a slot back, if one is held. -/
def release? (slots : Slots) : Option Slots :=
  if 0 < slots.held then
    some { slots with
      held := slots.held - 1
      held_le := Nat.le_trans (Nat.sub_le ..) slots.held_le }
  else none

/-- What a caller is told that gives up waiting for a slot. -/
def interrupted : String := "context canceled"

end Slots

end ScriptEngine
