/-
This file is about constructor calls. The instruction `markst` marks the next call, and a call takes
the mark with it: it saves the mark in its frame, clears it, and its end clears what it puts back.
So a call is a constructor call exactly if a mark was set since the last call or return, also
through functions that the host has entered, whose calls wait meanwhile with marks of their own. A
constructor call of a script function pushes a new object as the receiver of its body. The frame
remembers how many receivers there were before, and the return finds the new one there, however
many have been pushed above it; only a body that takes it away makes the return look elsewhere.
-/

import ScriptEngine.Proofs.Leaving
import ScriptEngine.Proofs.MatchingReturn
import ScriptEngine.Proofs.Sparing
import ScriptEngine.Proofs.Steady

namespace ScriptEngine

/-! ### Entering a function in full -/

namespace Heap

/-- A function that is given its prototype takes no cell and no object away. -/
theorem size_le_prepare (function : FunctionId) (heap : Heap) :
    heap.cells.size ≤ (prepare function heap).2.cells.size ∧
      heap.objects.size ≤ (prepare function heap).2.objects.size := by
  cases bound : (heap.function function).properties.get? prototypeName with
  | some prototype =>
    rw [prepare_of_some bound]
    exact ⟨Nat.le_refl _, Nat.le_refl _⟩
  | none =>
    rw [prepare_of_none bound]
    constructor
    · change heap.cells.size ≤ (heap.cells.push _).size
      rw [Array.size_push]
      exact Nat.le_succ _
    · change heap.objects.size ≤ (heap.objects.push _).size
      rw [Array.size_push]
      exact Nat.le_succ _

/-- A new object is in the next free cell. -/
theorem content_allocateObject (heap : Heap) :
    (allocateObject heap).2.Has ⟨heap.cells.size⟩ ∧
      (allocateObject heap).2.content ⟨heap.cells.size⟩ = .object ⟨heap.objects.size⟩ := by
  constructor
  · change heap.cells.size < (heap.cells.push _).size
    rw [Array.size_push]
    exact Nat.lt_succ_self _
  · change ((heap.cells.push { content := .object ⟨heap.objects.size⟩ }).getD _ {}).content = _
    simp

end Heap

namespace Machine

variable {machine final : Machine} {function : FunctionId} {arguments : List CellId}

theorem onScopes_eq_ok {change : Scopes → Scopes} (ends : onScopes change machine = .ok () final) :
    final = { machine with scopes := change machine.scopes } := by
  rcases Bool.eq_false_or_eq_true machine.attached with usable | unusable
  · cases (onScopes_of_attached usable change).symm.trans ends
    rfl
  · cases (onScopes_of_detached unusable change).symm.trans ends

theorem bindParameters_left {names : List Text}
    (ends : bindParameters names arguments machine = .ok () final) :
    ∃ heap scopes, final = { machine with heap, scopes } := by
  induction names generalizing arguments machine with
  | nil =>
    cases ends
    exact ⟨_, _, rfl⟩
  | cons name names inductionHypothesis =>
    unfold bindParameters at ends
    cases arguments with
    | nil | cons =>
      obtain ⟨cell, allocated, allocating, ends⟩ := bind_eq_ok.mp ends
      cases allocating
      obtain ⟨_, later, binding, ends⟩ := bind_eq_ok.mp ends
      cases onScopes_eq_ok binding
      obtain ⟨heap, scopes, rfl⟩ := inductionHypothesis ends
      exact ⟨heap, scopes, rfl⟩

/-- Once its receiver is there, entering a function changes neither stack and no flag. -/
theorem enter_false_left (ends : enter function arguments false machine = .ok () final) :
    ∃ heap scopes current, final = { machine with heap, scopes, current } := by
  obtain ⟨_, opened, pushed, ends⟩ := bind_eq_ok.mp ends
  obtain ⟨_, bound, binding, ends⟩ := bind_eq_ok.mp ((get_bind _ _).symm.trans ends)
  cases onScopes_eq_ok pushed
  obtain ⟨heap, scopes, rfl⟩ := bindParameters_left binding
  cases ends
  exact ⟨_, _, _, rfl⟩

/-- The new receiver of a constructor call is in the next free cell and holds the next object. -/
theorem pushNewReceiver_fresh (function : FunctionId) (machine : Machine) :
    ∃ heap : Heap, pushNewReceiver function machine =
        .ok () { machine with
          heap, receivers := machine.receivers.push ⟨machine.heap.cells.size⟩ } ∧
      heap.Has ⟨machine.heap.cells.size⟩ ∧
      heap.content ⟨machine.heap.cells.size⟩ = .object ⟨machine.heap.objects.size⟩ := by
  obtain ⟨has, held⟩ := Heap.content_allocateObject machine.heap
  have copies : Leads (Sparing ⟨machine.heap.cells.size⟩) (onHeap (Heap.copyPrototype function
      ((Heap.allocateObject machine.heap).2.content ⟨machine.heap.cells.size⟩)))
      { machine with heap := (Heap.allocateObject machine.heap).2 } :=
    sparing_onHeap (Heap.appends_copyPrototype _ _)
  obtain ⟨still, same⟩ := copies.sparing has
  exact ⟨_, rfl, still, (congrArg Cell.content same).trans held⟩

/-- Entering a function changes no flag; a constructor call gives it one receiver more, and that is
a new object. -/
theorem enter_left {construct : Bool}
    (ends : enter function arguments construct machine = .ok () final) :
    final.flags = machine.flags ∧
      final.receivers =
        (if construct then machine.receivers.push ⟨machine.heap.cells.size⟩
        else machine.receivers) ∧
      (construct = true →
        final.heap.content ⟨machine.heap.cells.size⟩ = .object ⟨machine.heap.objects.size⟩) := by
  cases construct with
  | false =>
    obtain ⟨heap, scopes, current, rfl⟩ := enter_false_left ends
    exact ⟨rfl, rfl, by rintro ⟨⟩⟩
  | true =>
    obtain ⟨heap, pushed, has, holds⟩ := pushNewReceiver_fresh function machine
    have rest : enter function arguments false _ = .ok () final :=
      (bind_of_ok pushed).symm.trans ends
    have spares : Sparing ⟨machine.heap.cells.size⟩
        { machine with heap, receivers := machine.receivers.push ⟨machine.heap.cells.size⟩ }
        (leftBy (enter function arguments false) _) :=
      (sparing_enter function arguments false _).sparing
    obtain ⟨_, same⟩ := spares has
    rw [leftBy_of_ok rest] at same
    have held := (congrArg Cell.content same).trans holds
    obtain ⟨heap, scopes, current, rfl⟩ := enter_false_left rest
    exact ⟨rfl, rfl, fun _ => held⟩

theorem flags_of_activate {receiver? : Option CellId} {waiting : Waiting} {made : Activation}
    (ends : activate function receiver? arguments waiting machine = .ok made final) :
    final.flags = machine.flags := by
  rcases activate_cases function receiver? arguments waiting machine with ⟨this, equal⟩ | broken
  · rw [equal, activate_some] at ends
    split at ends
    · cases ends
    · obtain ⟨_, entered, entering, ended⟩ := bind_eq_ok.mp ends
      cases ended
      exact (enter_left entering).1
  · cases broken.symm.trans ends

end Machine

open Machine

namespace Configuration

variable {first last before after : Configuration} {passed earlier : List Configuration}

/-! ### Marks -/

/-- The opcode that the next move executes. -/
def opcode? (configuration : Configuration) : Option Opcode :=
  match configuration.machine.nextMove configuration.pending with
  | .execute => configuration.machine.instruction?.map Instruction.opcode
  | .finish | .leave | .resume _ _ => none

theorem opcode?_of_executes {instruction : Instruction CellId} (executes : before.Executes)
    (present : before.machine.instruction? = some instruction) :
    before.opcode? = some instruction.opcode := by
  unfold Executes at executes
  unfold opcode?
  rw [executes]
  dsimp only
  rw [present, Option.map_some]

theorem opcode?_eq_some {opcode : Opcode} (known : before.opcode? = some opcode) :
    before.Executes ∧ ∃ instruction, before.machine.instruction? = some instruction ∧
      instruction.opcode = opcode := by
  unfold opcode? at known
  split at known
  · rename_i executes
    exact ⟨executes, Option.map_eq_some_iff.mp known⟩
  · cases known
  · cases known
  · cases known

/-- Of some configurations one executes `markst`, and none behind it executes a call or a return. -/
def Marked (passed : List Configuration) : Prop :=
  ∃ before mark behind, passed = before ++ mark :: behind ∧ mark.opcode? = some .markst ∧
    ∀ configuration ∈ behind,
      configuration.opcode? ≠ some .call ∧ configuration.opcode? ≠ some .ret

theorem not_marked_nil : ¬ Marked [] := by
  rintro ⟨before, mark, behind, split, _⟩
  simp at split

/-- One configuration more sets the mark of `Marked`, clears it or leaves it. -/
theorem marked_concat : Marked (earlier ++ [before]) ↔
    before.opcode? = some .markst ∨
      (Marked earlier ∧ before.opcode? ≠ some .call ∧ before.opcode? ≠ some .ret) := by
  constructor
  · rintro ⟨start, mark, behind, split, marks, quiet⟩
    rcases List.eq_nil_or_concat' behind with rfl | ⟨inner, final, rfl⟩
    · obtain ⟨_, same⟩ := List.append_inj' split rfl
      cases same
      exact .inl marks
    · rw [← List.cons_append, ← List.append_assoc] at split
      obtain ⟨rfl, same⟩ := List.append_inj' split rfl
      cases same
      refine .inr ⟨⟨start, mark, inner, rfl, marks, fun configuration member => ?_⟩, ?_⟩
      · exact quiet configuration (List.mem_append_left _ member)
      · exact quiet before (List.mem_append_right _ (List.mem_singleton_self _))
  · rintro (marks | ⟨⟨start, mark, behind, rfl, marks, quiet⟩, other⟩)
    · exact ⟨earlier, before, [], rfl, marks, by simp⟩
    · refine ⟨start, mark, behind ++ [before], by simp, marks, fun configuration member => ?_⟩
      rcases List.mem_append.mp member with inner | final
      · exact quiet configuration inner
      · rw [List.mem_singleton.mp final]
        exact other

/-! ### The mark in the middle of a run -/

/-- Where a run begins: nothing waits, or the host does, for a function that it has entered. -/
def Begins (configuration : Configuration) : Prop :=
  configuration.pending = [] ∨
    ∃ activation, configuration.pending = [activation] ∧ activation.waiting = .host ∧
      activation.depth < configuration.machine.frames.size

/-- Behind some configurations the mark is set if they are `Marked`. The calls that wait have frames
of their own, in which their marks are saved, and where the function that one of them waits for has
just returned the mark is not set. -/
structure Marking (earlier : List Configuration) (configuration : Configuration) : Prop where
  flag : configuration.machine.flags.construct = true ↔ Marked earlier
  lower : ∀ activation ∈ configuration.pending.head?,
    activation.depth ≤ configuration.machine.frames.size
  apart : configuration.pending.Pairwise fun inner outer => outer.depth < inner.depth
  saved : ∀ activation ∈ configuration.pending, ∀ construct,
    activation.waiting = .call construct → 0 < activation.depth ∧
      ∃ frame, configuration.machine.frames[activation.depth - 1]? = some frame ∧
        frame.flags.construct = construct
  returned : ∀ activation ∈ configuration.pending.head?,
    configuration.machine.frames.size = activation.depth →
      configuration.machine.flags.construct = false

theorem marking_start (begins : first.Begins) (clear : first.machine.flags.construct = false) :
    Marking [] first := by
  have flag : first.machine.flags.construct = true ↔ Marked [] := by
    rw [clear]
    exact ⟨by rintro ⟨⟩, fun marked => absurd marked not_marked_nil⟩
  rcases begins with empty | ⟨activation, single, waits, inside⟩
  · exact ⟨flag, by simp [empty], by simp [empty], by simp [empty], by simp [empty]⟩
  · refine ⟨flag, ?_, by simp [single], ?_, fun _ _ _ => clear⟩
    · rw [single]
      rintro _ ⟨⟩
      exact Nat.le_of_lt inside
    · rw [single]
      intro other member construct calls
      rw [List.mem_singleton.mp member, waits] at calls
      cases calls

/-- All calls that wait lie below the frames while an instruction `Executes`. -/
theorem Marking.depth_lt (marking : Marking earlier before) (executes : before.Executes) :
    ∀ activation ∈ before.pending, activation.depth < before.machine.frames.size := by
  have head := executes.head_lt
  have apart := marking.apart
  intro activation member
  cases waits : before.pending with
  | nil =>
    rw [waits] at member
    cases member
  | cons top outer =>
    rw [waits] at member head apart
    have highest := head top rfl
    rcases List.mem_cons.mp member with rfl | deeper
    · exact highest
    · exact Nat.lt_trans ((List.pairwise_cons.mp apart).1 activation deeper) highest

/-- A move that executes an instruction and keeps the activations, and of the frames those below
the functions that they wait for. -/
theorem Marking.kept (marking : Marking earlier before) (executes : before.Executes)
    (pending : after.pending = before.pending)
    (flag : after.machine.flags.construct = true ↔ Marked (earlier ++ [before]))
    (lower : ∀ activation ∈ before.pending.head?, activation.depth ≤ after.machine.frames.size)
    (frames : ∀ index, index + 1 < before.machine.frames.size →
      after.machine.frames[index]? = before.machine.frames[index]?)
    (returned : ∀ activation ∈ before.pending.head?,
      after.machine.frames.size = activation.depth → after.machine.flags.construct = false) :
    Marking (earlier ++ [before]) after := by
  refine ⟨flag, pending ▸ lower, pending ▸ marking.apart, ?_, pending ▸ returned⟩
  rw [pending]
  intro activation member construct calls
  obtain ⟨positive, frame, found, saved⟩ := marking.saved activation member construct calls
  have below := marking.depth_lt executes activation member
  exact ⟨positive, frame, (frames _ (by omega)).trans found, saved⟩

theorem Marking.same (marking : Marking earlier before) (executes : before.Executes)
    (pending : after.pending = before.pending)
    (frames : after.machine.frames = before.machine.frames)
    (flag : after.machine.flags.construct = true ↔ Marked (earlier ++ [before])) :
    Marking (earlier ++ [before]) after := by
  have head := executes.head_lt
  refine marking.kept executes pending flag ?_ (fun _ _ => by rw [frames]) ?_
  · intro activation member
    rw [frames]
    exact Nat.le_of_lt (head activation member)
  · intro activation member size
    rw [frames] at size
    exact absurd size.symm (Nat.ne_of_lt (head activation member))

/-- A call that is suspended has a frame, and so has the function that it waits for. -/
theorem Marking.suspended {machine entered : Machine} {pending : List Activation}
    {activation : Activation} {own inner : Frame} {later : List Configuration}
    (marking : Marking earlier ⟨machine, pending⟩) (executes : Executes ⟨machine, pending⟩)
    (flag : entered.flags.construct = true ↔ Marked later)
    (depth : activation.depth = machine.frames.size + 1)
    (frames : entered.frames = (machine.frames.push own).push inner)
    (mark : ∀ construct, activation.waiting = .call construct → own.flags.construct = construct) :
    Marking later ⟨entered, activation :: pending⟩ := by
  have below := marking.depth_lt executes
  have size : entered.frames.size = machine.frames.size + 2 := by
    rw [frames, Array.size_push, Array.size_push]
  have stays {index : Nat} (room : index < machine.frames.size + 1) :
      entered.frames[index]? = (machine.frames.push own)[index]? := by
    rw [frames, getElem?_push_of_lt (by rwa [Array.size_push])]
  constructor
  case flag => exact flag
  case lower =>
    rintro _ ⟨⟩
    rw [depth, size]
    exact Nat.le_succ _
  case apart =>
    refine List.pairwise_cons.mpr ⟨fun other member => ?_, marking.apart⟩
    rw [depth]
    exact Nat.lt_succ_of_lt (below other member)
  case saved =>
    refine List.forall_mem_cons.mpr
      ⟨fun construct waits => ?_, fun other member construct waits => ?_⟩
    · refine ⟨by rw [depth]; exact Nat.succ_pos _, own, ?_, mark construct waits⟩
      rw [depth, Nat.add_sub_cancel, stays (Nat.lt_succ_self _), Array.getElem?_push_size]
    · obtain ⟨positive, frame, found, same⟩ := marking.saved other member construct waits
      have lower : other.depth - 1 < machine.frames.size :=
        Nat.lt_of_le_of_lt (Nat.sub_le _ _) (below other member)
      refine ⟨positive, frame, ?_, same⟩
      rw [stays (Nat.lt_succ_of_lt lower), getElem?_push_of_lt lower]
      exact found
  case returned =>
    rintro _ ⟨⟩ equal
    rw [depth, size] at equal
    omega

/-- A call that goes on gives up its frame, and the others keep theirs. -/
theorem Marking.resumed {machine final : Machine} {pending : List Activation}
    {activation : Activation} {later : List Configuration}
    (marking : Marking earlier ⟨machine, activation :: pending⟩)
    (size : machine.frames.size = activation.depth)
    (flag : final.flags.construct = true ↔ Marked later)
    (frames : final.frames = machine.frames.pop) (clear : final.flags.construct = false) :
    Marking later ⟨final, pending⟩ := by
  obtain ⟨below, apart⟩ := List.pairwise_cons.mp marking.apart
  refine ⟨flag, fun other member => ?_, apart, fun other member construct waits => ?_,
    fun _ _ _ => clear⟩
  · have lower := below other (List.mem_of_mem_head? member)
    rw [frames, Array.size_pop]
    omega
  · obtain ⟨positive, frame, found, same⟩ :=
      marking.saved other (List.mem_cons_of_mem _ member) construct waits
    have lower := below other member
    refine ⟨positive, frame, ?_, same⟩
    rw [frames, Array.getElem?_pop, if_pos (by omega)]
    exact found

/-- What an instruction that neither calls nor returns does to the mark. -/
theorem Moves.construct_of_plain {instruction : Instruction CellId} (moves : before.Moves after)
    (executes : before.Executes) (present : before.machine.instruction? = some instruction)
    (noReturn : instruction.opcode ≠ .ret) (noCall : instruction.opcode ≠ .call) :
    after.machine.flags.construct = true ↔
      instruction.opcode = .markst ∨ before.machine.flags.construct = true := by
  obtain ⟨reached, executed, rfl⟩ := moves.exists_plain executes present noCall
  rw [flags_stepped]
  cases steady : instruction.opcode.isSteady with
  | true =>
    rw [(steady_executePlain steady).construct_of_ok executed]
    constructor
    · exact .inr
    · rintro (marks | same)
      · rw [marks] at steady
        cases steady
      · exact same
  | false =>
    obtain ⟨opcode, offset, datum⟩ := instruction
    unfold executePlain at executed
    cases opcode with
    | jmp | leave =>
      cases executed
      exact ⟨.inr, by rintro (⟨⟨⟩⟩ | same); exact same⟩
    | jmpz | jmpnz =>
      have executed := (get_bind _ _).symm.trans executed
      split at executed
      · cases executed
        exact ⟨.inr, by rintro (⟨⟨⟩⟩ | same); exact same⟩
      · cases executed
        exact ⟨.inr, by rintro (⟨⟨⟩⟩ | same); exact same⟩
    | markst =>
      cases executed
      exact ⟨fun _ => .inl rfl, fun _ => rfl⟩
    | call => exact absurd rfl noCall
    | ret => exact absurd rfl noReturn
    | _ => cases steady

/-- The flags behind a native call that has a script function entered. -/
theorem Moves.flags_of_suspended {machine final : Machine} {pending : List Activation}
    {activation : Activation} {count : Nat} {function : FunctionId}
    (moves : Moves ⟨machine, pending⟩ ⟨final, activation :: pending⟩)
    (executes : Executes ⟨machine, pending⟩) (calls : machine.Calls count function) :
    final.flags.construct = false := by
  obtain ⟨flow, middle, called, goesOn⟩ := moves.exists_call executes calls
  obtain ⟨_, callee, entered, _, _, ways⟩ := call_eq_ok called
  rcases goesOn with ⟨_, same⟩ | ⟨_, suspended, same⟩
  · have longer := congrArg (List.length ∘ Configuration.pending) same
    simp at longer
  · cases same
    rcases ways with ⟨_, impossible, _⟩ | ⟨native, _, calling⟩
    · cases suspended.symm.trans impossible
    · obtain ⟨this, _, ways⟩ := callNative_eq_ok calling
      rcases ways with ⟨_, _, _, _, impossible⟩ | ⟨_, _, _, reached, _, hosted, activating, _⟩
      · cases suspended.symm.trans impossible
      · rw [flags_of_activate activating, callHost_left (leftBy_of_ok hosted)]
        rfl

/-- Configurations that end with a call or a return are not `Marked`. -/
theorem not_marked_of_clears {opcode : Opcode} (known : before.opcode? = some opcode)
    (clears : opcode = .call ∨ opcode = .ret) : ¬ Marked (earlier ++ [before]) := by
  rw [marked_concat, known]
  rintro (marks | ⟨_, noCall, noReturn⟩)
  · cases marks
    rcases clears with ⟨⟨⟩⟩ | ⟨⟨⟩⟩
  · rcases clears with rfl | rfl
    · exact noCall rfl
    · exact noReturn rfl

theorem opcode?_of_calls {count : Nat} {function : FunctionId} (executes : before.Executes)
    (calls : before.machine.Calls count function) : before.opcode? = some .call := by
  obtain ⟨instruction, present, isCall, _⟩ := calls.instruction
  rw [opcode?_of_executes executes present, isCall]

/-- Behind a call or a return the mark is not set, and the configurations are not `Marked`. -/
theorem construct_iff_marked_of_clears {opcode : Opcode} {construct : Bool}
    (known : before.opcode? = some opcode) (clears : opcode = .call ∨ opcode = .ret)
    (clear : construct = false) : construct = true ↔ Marked (earlier ++ [before]) := by
  rw [clear]
  exact ⟨by rintro ⟨⟩, fun marked => absurd marked (not_marked_of_clears known clears)⟩

/-! ### The mark behind each kind of move -/

theorem Marking.plain {instruction : Instruction CellId} (marking : Marking earlier before)
    (moves : before.Moves after) (executes : before.Executes)
    (present : before.machine.instruction? = some instruction)
    (noReturn : instruction.opcode ≠ .ret) (noCall : instruction.opcode ≠ .call)
    (pending : after.pending = before.pending)
    (frames : after.machine.frames = before.machine.frames) :
    Marking (earlier ++ [before]) after := by
  refine marking.same executes pending frames ?_
  rw [moves.construct_of_plain executes present noReturn noCall, marked_concat,
    opcode?_of_executes executes present, marking.flag]
  simp [noReturn, noCall]

section

variable {machine middle entered : Machine} {pending : List Activation} {count : Nat}
  {function callee : FunctionId} {native : Native} {this result : CellId} {frame : Frame}
  {operand : Operand}

theorem Marking.nativeCall (marking : Marking earlier ⟨machine, pending⟩)
    (executes : Executes ⟨machine, pending⟩) (calls : machine.Calls count function)
    (hosted : callHost native (some this) (machine.argumentCells count)
      (machine.ready count function) = .ok (.value result) middle) :
    Marking (earlier ++ [⟨machine, pending⟩])
      ⟨(nativeReturn machine.flags.construct result (machine.callFrame count) middle).stepped,
        pending⟩ := by
  have frames : (nativeReturn machine.flags.construct result (machine.callFrame count)
      middle).stepped.frames = machine.frames := (alike_nativeReturn hosted).stepped.frames
  refine marking.same executes rfl frames
    (construct_iff_marked_of_clears (opcode?_of_calls executes calls) (.inl rfl) ?_)
  dsimp only
  rw [flags_stepped]
  exact Bool.not_and_self _

theorem Marking.ret {instruction : Instruction CellId}
    (marking : Marking earlier ⟨machine, pending⟩)
    (executes : Executes ⟨machine, pending⟩) (present : machine.instruction? = some instruction)
    (returns : instruction.opcode = .ret) :
    Marking (earlier ++ [⟨machine, pending⟩])
      ⟨(scriptReturn operand.cell frame machine).stepped, pending⟩ := by
  have head := executes.head_lt
  have frames : (scriptReturn operand.cell frame machine).stepped.frames = machine.frames.pop :=
    frames_stepped _
  have clear : (scriptReturn operand.cell frame machine).stepped.flags.construct = false := by
    rw [flags_stepped]
    rfl
  have known : opcode? ⟨machine, pending⟩ = some .ret :=
    (opcode?_of_executes executes present).trans (by rw [returns])
  refine marking.kept executes rfl (construct_iff_marked_of_clears known (.inr rfl) clear)
    ?_ ?_ fun _ _ _ => clear
  · intro activation member
    rw [frames, Array.size_pop]
    exact Nat.le_sub_one_of_lt (head activation member)
  · intro index room
    rw [frames, Array.getElem?_pop, if_pos (Nat.lt_sub_of_add_lt room)]

theorem Marking.enter (marking : Marking earlier ⟨machine, pending⟩)
    (moves : Moves ⟨machine, pending⟩ ⟨entered.stepped, pending⟩)
    (executes : Executes ⟨machine, pending⟩) (calls : machine.Calls count function)
    (script : (machine.heap.function function).native = none)
    (entering : Entered (machine.ready count function) entered) :
    Marking (earlier ++ [⟨machine, pending⟩]) ⟨entered.stepped, pending⟩ := by
  have head := executes.head_lt
  have frames : entered.stepped.frames = machine.frames.push (machine.callFrame count) :=
    (frames_stepped _).trans entering.frames
  have clear : entered.stepped.flags.construct = false := by
    obtain ⟨other, enters, same⟩ := moves.exists_enter executes calls script
    rw [(Configuration.mk.inj same).1, flags_stepped, (enter_left enters).1]
    rfl
  refine marking.kept executes rfl
    (construct_iff_marked_of_clears (opcode?_of_calls executes calls) (.inl rfl) clear)
    ?_ ?_ fun _ _ _ => clear
  · intro activation member
    rw [frames, Array.size_push]
    exact Nat.le_succ_of_le (Nat.le_of_lt (head activation member))
  · intro index room
    rw [frames, getElem?_push_of_lt (Nat.lt_of_succ_lt room)]

theorem Marking.suspend {receiver? : Option CellId} {passed : List CellId}
    (marking : Marking earlier ⟨machine, pending⟩)
    (moves : Moves ⟨machine, pending⟩
      ⟨entered, middle.activation (.call machine.flags.construct) :: pending⟩)
    (executes : Executes ⟨machine, pending⟩) (calls : machine.Calls count function)
    (hosted : callHost native (some this) (machine.argumentCells count)
      (machine.ready count function) = .ok (.enter callee receiver? passed) middle)
    (activated : Activated middle entered) :
    Marking (earlier ++ [⟨machine, pending⟩])
      ⟨entered, middle.activation (.call machine.flags.construct) :: pending⟩ := by
  obtain ⟨saved, _⟩ := callHost_ready hosted
  have frames := activated.frames
  rw [saved] at frames
  have depth : (middle.activation (.call machine.flags.construct)).depth =
      machine.frames.size + 1 := by
    unfold activation
    rw [saved, Array.size_push]
  refine marking.suspended executes ?_ depth frames ?_
  · exact construct_iff_marked_of_clears (opcode?_of_calls executes calls) (.inl rfl)
      (moves.flags_of_suspended executes calls)
  · rintro _ ⟨⟩
    rfl

theorem Marking.resume {activation : Activation} {construct : Bool}
    (marking : Marking earlier ⟨machine, activation :: pending⟩)
    (reached : machine.frames.size ≤ activation.depth)
    (waits : activation.waiting = .call construct) (saved : machine.frames.back? = some frame) :
    Marking (earlier ++ [⟨machine, activation :: pending⟩])
      ⟨(nativeReturn construct operand.cell frame (machine.concluded activation)).stepped,
        pending⟩ := by
  have size : machine.frames.size = activation.depth :=
    Nat.le_antisymm reached (marking.lower activation rfl)
  have frames : (nativeReturn construct operand.cell frame
      (machine.concluded activation)).stepped.frames = machine.frames.pop := frames_stepped _
  obtain ⟨positive, own, found, mark⟩ :=
    marking.saved activation List.mem_cons_self construct waits
  have clear : (nativeReturn construct operand.cell frame
      (machine.concluded activation)).stepped.flags.construct = false := by
    rw [Array.back?_eq_getElem?, size] at saved
    cases saved.symm.trans found
    rw [flags_stepped]
    change (!construct && frame.flags.construct) = false
    rw [mark, Bool.not_and_self]
  have idle : opcode? ⟨machine, activation :: pending⟩ = none := by
    unfold opcode?
    rw [nextMove, if_neg (Nat.not_lt_of_le reached)]
  have unmarked := marking.returned activation rfl size
  refine marking.resumed size ?_ frames clear
  rw [clear, marked_concat, idle, ← marking.flag, unmarked]
  simp

end

/-- Every move keeps the `Marking`, which is in step with what has been executed. -/
theorem Moves.keeps_marking (moves : before.Moves after) (marking : Marking earlier before) :
    Marking (earlier ++ [before]) after := by
  cases moves.step with
  | plain executes present noReturn noCall alike spares =>
    exact marking.plain moves executes present noReturn noCall rfl alike.frames
  | native executes calls kind hosted => exact marking.nativeCall executes calls hosted
  | ret executes present returns topmost saved => exact marking.ret executes present returns
  | enter executes calls script entering => exact marking.enter moves executes calls script entering
  | suspend executes calls kind hosted activated =>
    exact marking.suspend moves executes calls hosted activated
  | resume reached waits topmost enough saved => exact marking.resume reached waits saved

/-- A run keeps the `Marking` from wherever it `Begins`. -/
theorem Run.keeps_marking (run : Run first passed last) (marking : Marking earlier first) :
    Marking (earlier ++ passed) last := by
  induction run generalizing earlier with
  | done => rwa [List.append_nil]
  | move moves _ inductionHypothesis =>
    have next := inductionHypothesis (moves.keeps_marking marking)
    rwa [List.append_assoc, List.singleton_append] at next

/-! ### Constructor calls -/

/-- The call that the next move makes runs its callee as a constructor: a receiver is pushed for it,
which a script function finds when it is entered and a native function leaves behind as its result;
a native call that has a script function entered waits with the mark, to push its result later. -/
def Constructs (before after : Configuration) : Prop :=
  (after.pending = before.pending ∧
    ∃ cell, after.machine.receivers = before.machine.receivers.push cell) ∨
  ∃ activation, after.pending = activation :: before.pending ∧ activation.waiting = .call true

theorem constructs_of_kept (pending : after.pending = before.pending) {construct : Bool}
    {cell : CellId} (receivers : after.machine.receivers =
      if construct then before.machine.receivers.push cell else before.machine.receivers) :
    before.Constructs after ↔ construct = true := by
  have longer (activation : Activation) : after.pending ≠ activation :: before.pending := by
    rw [pending]
    exact fun same => absurd (congrArg List.length same) (by simp)
  cases construct with
  | true => exact ⟨fun _ => rfl, fun _ => .inl ⟨pending, cell, receivers⟩⟩
  | false =>
    refine ⟨?_, by rintro ⟨⟩⟩
    rintro (⟨_, other, pushed⟩ | ⟨activation, waits, _⟩)
    · have size := congrArg Array.size (receivers.symm.trans pushed)
      rw [if_neg Bool.false_ne_true, Array.size_push] at size
      omega
    · exact absurd waits (longer activation)

/-- A call `Constructs` exactly if the mark is set. -/
theorem Moves.constructs_iff (moves : before.Moves after) (isCall : before.opcode? = some .call) :
    before.Constructs after ↔ before.machine.flags.construct = true := by
  obtain ⟨executes, instruction, present, opcode⟩ := opcode?_eq_some isCall
  cases moves.step with
  | plain executes known noReturn noCall =>
    cases present.symm.trans known
    exact absurd opcode noCall
  | ret executes known returns =>
    cases present.symm.trans known
    cases returns.symm.trans opcode
  | @enter machine entered pending count function _ calls script entering =>
    obtain ⟨other, enters, same⟩ := moves.exists_enter executes calls script
    have receivers : entered.stepped.receivers =
        if machine.flags.construct then
          machine.receivers.push ⟨(Heap.prepare function machine.heap).2.cells.size⟩
        else machine.receivers := by
      rw [(Configuration.mk.inj same).1, receivers_stepped, (enter_left enters).2.1]
      rfl
    exact constructs_of_kept (by rfl) receivers
  | @native machine middle pending count function native this result _ calls kind hosted =>
    obtain ⟨_, _, same, _⟩ := callHost_ready hosted
    have receivers : (nativeReturn machine.flags.construct result (machine.callFrame count)
        middle).stepped.receivers =
          if machine.flags.construct then machine.receivers.push result else machine.receivers := by
      have whole : machine.receivers.shrink machine.receivers.size = machine.receivers := by simp
      rw [receivers_stepped]
      unfold nativeReturn callFrame
      dsimp only
      rw [same, whole]
    exact constructs_of_kept (by rfl) receivers
  | @suspend machine middle entered pending count function callee native this receiver? arguments
      _ calls kind hosted activated =>
    constructor
    · rintro (⟨same, _⟩ | ⟨activation, same, waits⟩)
      · exact absurd (congrArg List.length same) (by simp)
      · obtain ⟨rfl, _⟩ := List.cons.inj same
        exact Waiting.call.inj waits
    · intro marked
      exact .inr ⟨_, rfl, congrArg Waiting.call marked⟩
  | resume reached => exact absurd executes.depth_lt (Nat.not_lt_of_le reached)

/-- A call `Constructs` exactly if the run to it is `Marked`, where the run has begun without a
mark. -/
theorem Run.constructs_iff (run : Run first passed last) (begins : first.Begins)
    (clear : first.machine.flags.construct = false) (isCall : last.opcode? = some .call)
    (moves : last.Moves after) : last.Constructs after ↔ Marked passed := by
  rw [moves.constructs_iff isCall, (run.keeps_marking (marking_start begins clear)).flag,
    List.nil_append]

/-! ### Behind a constructor call -/

/-- A move behind which there are more receivers than so many leaves more than so many, by
`receiversLeft`. -/
theorem Moves.lt_receiversLeft {height : Nat} (moves : before.Moves after)
    (deep : height < before.machine.receivers.size)
    (still : height < after.machine.receivers.size) : height < before.receiversLeft := by
  unfold receiversLeft
  cases move : before.machine.nextMove before.pending with
  | finish | leave | resume => exact deep
  | execute =>
    have executes : before.Executes := move
    dsimp only
    cases present : before.machine.instruction? with
    | none => exact deep
    | some instruction =>
      rw [Option.map_some, Option.getD_some]
      unfold Instruction.receiversTaken
      split
      · rename_i isTake
        obtain ⟨lower, cell, pushed⟩ := Array.exists_push_of_size_pos (Nat.zero_lt_of_lt deep)
        have topmost : before.machine.receivers.back? = some cell := by
          rw [pushed, Array.back?_push]
        have ends := executes.advance_eq.symm.trans moves
        injection (executeNext_of_done present (execute_takes_of_some isTake topmost)).symm.trans
          ends with _ same
        rw [← same, receivers_stepped] at still
        rwa [Array.size_pop] at still
      · exact deep

/-- Where there are more receivers than so many all along a run, each move but the last leaves more
than so many. -/
theorem Run.lt_receiversLeft {height : Nat} {body : List Configuration}
    (run : Run first (body ++ [before]) last)
    (deep : ∀ configuration ∈ body ++ [before],
      height < configuration.machine.receivers.size) :
    ∀ configuration ∈ body, height < configuration.receiversLeft := by
  induction body generalizing first with
  | nil => simp
  | cons top rest inductionHypothesis =>
    obtain ⟨second, later, split, moves, run⟩ := run.cases_move (by simp)
    obtain ⟨rfl, rfl⟩ := List.cons.inj split
    obtain ⟨_, _, starts, _, _⟩ := run.cases_move (by simp)
    have member : second ∈ rest ++ [before] := by
      rw [show rest ++ [before] = second :: _ from starts]
      exact List.mem_cons_self ..
    refine List.forall_mem_cons.mpr ⟨?_, inductionHypothesis run fun configuration found =>
      deep configuration (List.mem_cons_of_mem _ found)⟩
    exact moves.lt_receiversLeft (deep _ (List.mem_cons_self ..))
      (deep second (List.mem_cons_of_mem _ member))

/-- When a call `Returns` and finds the receivers of the caller and the new one below all others, it
leaves just these. -/
theorem Returns.receivers_of_constructor {operand : Operand} {frame : Frame}
    {receivers : Array CellId} {fresh : CellId} (returns : before.Returns operand frame after)
    (constructs : frame.flags.construct = true) (mark : frame.receiverMark = receivers.size)
    (lower : before.machine.receivers.toList.take (receivers.size + 1) =
      (receivers.push fresh).toList) :
    after.machine.receivers = receivers.push fresh := by
  have found : before.machine.receivers[frame.receiverMark]? = some fresh := by
    rw [mark, ← Array.getElem?_toList, ← List.getElem?_take_of_lt (Nat.lt_succ_self _), lower,
      Array.getElem?_toList, Array.getElem?_push_size]
  have cut : before.machine.receivers.shrink frame.receiverMark = receivers := by
    apply Array.toList_inj.mp
    have whole := congrArg (List.take receivers.size) lower
    rw [List.take_take, Nat.min_eq_left (Nat.le_succ _), Array.toList_push,
      List.take_append_of_le_length (by simp), ← Array.length_toList, List.take_length] at whole
    rw [Array.toList_shrink, mark]
    exact whole
  rw [returns.after, receivers_stepped]
  unfold scriptReturn constructedCell
  dsimp only
  rw [if_pos constructs, found, cut]
  rfl

/-- A constructor call of a script function and the first configuration after it with as many frames
as there were. As long as there are more receivers than the call has found, the new object that the
body starts with is where the return looks for it. -/
theorem Run.constructed {count : Nat} {function : FunctionId} (run : Run first passed last)
    (executes : first.Executes) (calls : first.machine.Calls count function)
    (script : (first.machine.heap.function function).native = none)
    (constructs : first.machine.flags.construct = true) (moved : passed ≠ [])
    (back : last.machine.frames.size = first.machine.frames.size)
    (away : ∀ configuration ∈ passed.tail,
      configuration.machine.frames.size ≠ first.machine.frames.size)
    (deep : ∀ configuration ∈ passed.tail,
      first.machine.receivers.size < configuration.machine.receivers.size) :
    ∃ entered fresh object, passed.tail.head? = some entered ∧
      entered.machine.receivers = first.machine.receivers.push fresh ∧
      entered.machine.heap.content fresh = .object object ∧
      ¬ first.machine.heap.Has fresh ∧ first.machine.heap.objects.size ≤ object.index ∧
      last.machine.receivers = first.machine.receivers.push fresh ∧
      last.machine.flags.construct = false := by
  obtain ⟨entered, body, before, operand, moves, _, started, split, frames, pending, returns, _,
    keeps⟩ := run.exists_return_of_script executes calls script moved back away
  obtain ⟨middle, enters, same⟩ := moves.exists_enter executes calls script
  obtain ⟨_, pushed, holds⟩ := enter_left enters
  obtain ⟨cells, objects⟩ := Heap.size_le_prepare function first.machine.heap
  have receivers : entered.receivers =
      first.machine.receivers.push ⟨(Heap.prepare function first.machine.heap).2.cells.size⟩ := by
    rw [(Configuration.mk.inj same).1, receivers_stepped, pushed, if_pos constructs]
    rfl
  have object : entered.heap.content ⟨(Heap.prepare function first.machine.heap).2.cells.size⟩ =
      .object ⟨(Heap.prepare function first.machine.heap).2.objects.size⟩ := by
    rw [(Configuration.mk.inj same).1, heap_stepped]
    exact holds constructs
  refine ⟨_, _, _, started, receivers, object, Nat.not_lt_of_le cells, objects, ?_, ?_⟩
  · obtain ⟨second, rest, rfl, _, run⟩ := run.cases_move moved
    rw [List.tail_cons] at split deep
    rw [split] at run deep
    have kept := keeps entered 0 0 (first.machine.receivers.size + 1) (.of_eq rfl rfl)
      (Nat.zero_le _) (by rw [receivers, Array.size_push]) (fun _ _ => Nat.zero_le _)
      (run.lt_receiversLeft deep)
    refine returns.receivers_of_constructor constructs rfl (kept.receivers.2.trans ?_)
    rw [receivers, ← Array.size_push, ← Array.length_toList, List.take_length]
  · rw [returns.after, flags_stepped]
    rfl

/-- The constructor protocol. Wherever a run begins without a mark, a call that it comes to
`Constructs`, that is, runs its callee as a constructor, exactly if the run is `Marked`: a mark was
set since the last call or return. A constructor call of a script function starts its body with a
new object on top of the receivers; if the body never leaves as few of them as the call has found,
then right behind the matching return the receivers are those of the caller and that object,
whatever was pushed meanwhile, and the mark is not set. -/
theorem constructor_protocol :
    (∀ {first last after : Configuration} {passed : List Configuration}, Run first passed last →
      first.Begins → first.machine.flags.construct = false → last.opcode? = some .call →
      last.Moves after →
      (last.Constructs after ↔ Marked passed) ∧
        (last.machine.flags.construct = true ↔ Marked passed)) ∧
    ∀ {first last : Configuration} {passed : List Configuration} {count : Nat}
      {function : FunctionId}, Run first passed last → first.Executes →
      first.machine.Calls count function →
      (first.machine.heap.function function).native = none →
      first.machine.flags.construct = true → passed ≠ [] →
      last.machine.frames.size = first.machine.frames.size →
      (∀ configuration ∈ passed.tail,
        configuration.machine.frames.size ≠ first.machine.frames.size) →
      (∀ configuration ∈ passed.tail,
        first.machine.receivers.size < configuration.machine.receivers.size) →
      ∃ entered fresh object, passed.tail.head? = some entered ∧
        entered.machine.receivers = first.machine.receivers.push fresh ∧
        entered.machine.heap.content fresh = .object object ∧
        ¬ first.machine.heap.Has fresh ∧ first.machine.heap.objects.size ≤ object.index ∧
        last.machine.receivers = first.machine.receivers.push fresh ∧
        last.machine.flags.construct = false := by
  refine ⟨fun run begins clear isCall moves => ?_, Run.constructed⟩
  have constructs := run.constructs_iff begins clear isCall moves
  exact ⟨constructs, (moves.constructs_iff isCall).symm.trans constructs⟩

/-- A machine that is about to call a function which returns null with one argument, or to mark that
call. -/
def markedCall (marked : Bool) : Configuration where
  machine :=
    { heap :=
        { cells := #[{ content := .function ⟨0⟩ }, {}]
          functions := #[{}] }
      scopes := { receiver := ⟨1⟩ }
      code := #[{ opcode := .push, datum := { kind := .null } }, { opcode := .ret },
        { opcode := .markst }, { opcode := .call, datum := { kind := .number, number := 1 } }]
      current := if marked then 3 else 2
      flags := { construct := marked }
      stop := 4
      operands := #[{ cell := ⟨0⟩ }, { cell := ⟨1⟩ }]
      receivers := #[⟨1⟩] }
  pending := []

theorem constructor_protocol_markedCall :
    Marked [markedCall false] ∧ (markedCall true).Constructs ((markedCall true).after 1) ∧
      ∃ fresh, ((markedCall true).after 1).machine.receivers = #[⟨1⟩, fresh] ∧
        ((markedCall true).after 3).machine.receivers = #[⟨1⟩, fresh] := by
  have marked : Marked [markedCall false] := ⟨[], markedCall false, [], rfl, by rfl, by simp⟩
  have run : Run (markedCall false) [markedCall false] (markedCall true) :=
    .move (by rfl) (.done _)
  have calls : (markedCall true).machine.Calls 1 ⟨0⟩ :=
    ⟨⟨_, rfl, rfl, rfl, rfl⟩, by decide, ⟨0⟩, rfl, rfl⟩
  have moves : (markedCall true).Moves ((markedCall true).after 1) :=
    moves_of_next? (by decide +kernel)
  have constructs := (constructor_protocol.1 run (.inl rfl) rfl (by rfl) moves).1.mpr marked
  have body : Run (markedCall true)
      [markedCall true, (markedCall true).after 1, (markedCall true).after 2]
      ((markedCall true).after 3) :=
    run_after (markedCall true) 3 (by decide +kernel)
  obtain ⟨entered, fresh, object, starts, receivers, _, _, _, kept, _⟩ :=
    constructor_protocol.2 body rfl calls rfl rfl (by simp) (by decide +kernel)
      (by decide +kernel) (by decide +kernel)
  cases starts
  exact ⟨marked, constructs, fresh, receivers, kept⟩

end Configuration

end ScriptEngine
