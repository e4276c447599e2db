/-
This file compares the two ways into a script function. A call instruction saves a frame and goes
on; the host pushes a receiver first, and waits until the frame is gone. So the machine that the
host has entered a function on has one receiver more, just above those of the caller, and every
frame and every activation made inside remembers one receiver more. Under this disguise the two
machines move alike up to the return, and behind it the host takes the receiver away again. The
disguise is noticed in one case only: where the caller has no receiver at all, taking one inside
the call finds none, but finds the one that the host has pushed.
-/

import ScriptEngine.Proofs.Disguise
import ScriptEngine.Proofs.Leaving
import ScriptEngine.Proofs.MatchingReturn

namespace ScriptEngine

open Machine

/-! ### One receiver more -/

/-- Receivers with one more at a height. -/
def carried (height : Nat) (this : CellId) (receivers : Array CellId) : Array CellId :=
  (receivers.toList.take height ++ this :: receivers.toList.drop height).toArray

section Receivers

variable {height mark index : Nat} {this : CellId} {receivers : Array CellId}

theorem toList_carried :
    (carried height this receivers).toList =
      receivers.toList.take height ++ this :: receivers.toList.drop height :=
  rfl

theorem size_carried : (carried height this receivers).size = receivers.size + 1 := by
  rw [← Array.length_toList, toList_carried, List.length_append, List.length_cons,
    List.length_take, List.length_drop, Array.length_toList]
  omega

theorem carried_push (room : height ≤ receivers.size) (cell : CellId) :
    carried height this (receivers.push cell) = (carried height this receivers).push cell := by
  apply Array.toList_inj.mp
  rw [toList_carried, Array.toList_push, Array.toList_push, toList_carried,
    List.take_append_of_le_length (by simpa using room),
    List.drop_append_of_le_length (by simpa using room), List.append_assoc, List.cons_append]

/-- Above all receivers the one more of `carried` is pushed. -/
theorem carried_size (this : CellId) (receivers : Array CellId) :
    carried receivers.size this receivers = receivers.push this := by
  apply Array.toList_inj.mp
  rw [toList_carried, Array.toList_push, ← Array.length_toList, List.take_length, List.drop_length]

theorem shrink_carried (room : height ≤ receivers.size) (above : height ≤ mark) :
    (carried height this receivers).shrink (mark + 1) =
      carried height this (receivers.shrink mark) := by
  apply Array.toList_inj.mp
  have lower : (receivers.toList.take height).length = height := by
    rw [List.length_take, Array.length_toList, Nat.min_eq_left room]
  rw [Array.toList_shrink, toList_carried, toList_carried, Array.toList_shrink, List.take_take,
    Nat.min_eq_left above, List.take_append, lower, List.take_of_length_le (by omega),
    show mark + 1 - height = (mark - height) + 1 by omega, List.take_succ_cons, List.drop_take]

/-- Cut back to its own height, the one more of `carried` is gone. -/
theorem shrink_carried_self (room : height ≤ receivers.size) :
    (carried height this receivers).shrink height = receivers.shrink height := by
  apply Array.toList_inj.mp
  rw [Array.toList_shrink, Array.toList_shrink, toList_carried, List.take_append_of_le_length]
  · rw [List.take_take, Nat.min_self]
  · rw [List.length_take, Array.length_toList, Nat.min_eq_left room]

theorem getElem?_carried (room : height ≤ receivers.size) (above : height ≤ index) :
    (carried height this receivers)[index + 1]? = receivers[index]? := by
  have lower : (receivers.toList.take height).length = height := by
    rw [List.length_take, Array.length_toList, Nat.min_eq_left room]
  rw [← Array.getElem?_toList, toList_carried, List.getElem?_append_right (by omega), lower,
    show index + 1 - height = (index - height) + 1 by omega, List.getElem?_cons_succ,
    List.getElem?_drop, ← Array.getElem?_toList]
  congr 1
  omega

theorem back?_carried (lower : height < receivers.size) :
    (carried height this receivers).back? = receivers.back? := by
  obtain ⟨size, equal⟩ : ∃ size, receivers.size = size + 1 := ⟨receivers.size - 1, by omega⟩
  rw [Array.back?_eq_getElem?, Array.back?_eq_getElem?, size_carried, Nat.add_sub_cancel, equal,
    Nat.add_sub_cancel]
  exact getElem?_carried (by omega) (by omega)

theorem pop_carried (lower : height < receivers.size) :
    (carried height this receivers).pop = carried height this receivers.pop := by
  have cut {values : Array CellId} : values.pop = values.shrink (values.size - 1) := by
    apply Array.toList_inj.mp
    rw [Array.toList_pop, Array.toList_shrink, List.dropLast_eq_take, Array.length_toList]
  obtain ⟨size, equal⟩ : ∃ size, receivers.size = size + 1 := ⟨receivers.size - 1, by omega⟩
  rw [cut, cut, size_carried, equal, Nat.add_sub_cancel, Nat.add_sub_cancel]
  exact shrink_carried (by omega) (by omega)

end Receivers

/-! ### Marks one higher -/

/-- A frame that remembers one receiver more. -/
def Frame.raised (frame : Frame) : Frame :=
  { frame with receiverMark := frame.receiverMark + 1 }

/-- An activation that remembers one receiver more. -/
def Activation.raised (activation : Activation) : Activation :=
  { activation with receiverMark := activation.receiverMark + 1 }

/-- Frames of which those from a depth on remember one receiver more. -/
def raisedFrom (depth : Nat) (frames : Array Frame) : Array Frame :=
  frames.mapIdx fun index frame => if depth ≤ index then frame.raised else frame

section Frames

variable {depth : Nat} {frames : Array Frame}

@[simp]
theorem size_raisedFrom : (raisedFrom depth frames).size = frames.size :=
  Array.size_mapIdx

theorem raisedFrom_push (room : depth ≤ frames.size) (frame : Frame) :
    raisedFrom depth (frames.push frame) = (raisedFrom depth frames).push frame.raised := by
  unfold raisedFrom
  rw [Array.mapIdx_push, if_pos room]

/-- Below the depth `raisedFrom` raises nothing. -/
theorem raisedFrom_of_le (few : frames.size ≤ depth) : raisedFrom depth frames = frames := by
  apply Array.ext
  · exact size_raisedFrom
  · intro index _ below
    simp only [raisedFrom, Array.getElem_mapIdx]
    rw [if_neg (by omega)]

theorem pop_raisedFrom {frame : Frame} (saved : frames.back? = some frame)
    (above : depth < frames.size) :
    (raisedFrom depth frames).back? = some frame.raised ∧
      (raisedFrom depth frames).pop = raisedFrom depth frames.pop := by
  obtain ⟨lower, rfl⟩ := Array.back?_eq_some_iff.mp saved
  rw [Array.size_push] at above
  rw [raisedFrom_push (Nat.le_of_lt_succ above), Array.back?_push, Array.pop_push, Array.pop_push]
  exact ⟨rfl, rfl⟩

end Frames

/-- The disguise of a machine on which the host has entered the function that the machine itself has
called: one receiver more at a height, `carried`, and marks one higher from a depth on,
`raisedFrom`. -/
def Disguise.carrying (height depth : Nat) (this : CellId) : Disguise where
  receivers := carried height this
  frames := raisedFrom depth
  limit := id

namespace Machine

variable {height depth : Nat} {this : CellId} {machine middle final : Machine}

/-- The receivers reach up to the height, and the topmost frame is one of those that remember one
receiver more. -/
structure Marked (height depth : Nat) (machine : Machine) : Prop where
  room : height ≤ machine.receivers.size
  depth : depth < machine.frames.size
  mark : ∀ frame, machine.frames.back? = some frame → height ≤ frame.receiverMark

/-- What the disguise needs of a machine in order not to be noticed: where its receivers reach no
higher than the height, the current receiver is the one more. -/
structure Carriable (height depth : Nat) (this : CellId) (machine : Machine) : Prop
    extends Marked height depth machine where
  attached : machine.attached = true
  unlimited : machine.limit ≤ 0
  top : height = machine.receivers.size →
    this = machine.receivers.back?.getD machine.scopes.receiver

theorem Carriable.fits (carriable : machine.Carriable height depth this) :
    machine.Fits (.carrying height depth this) := by
  refine ⟨fun cell => carried_push carriable.room cell, ?_⟩
  rcases Nat.lt_or_eq_of_le carriable.room with lower | equal
  · exact .inl (back?_carried lower)
  · refine .inr ⟨carriable.attached, ?_⟩
    rw [← carriable.top equal]
    change (carried height this machine.receivers).back?.getD _ = this
    rw [equal, carried_size, Array.back?_push]
    rfl

theorem stepped_disguised (disguise : Disguise) (machine : Machine) :
    (machine.disguised disguise).stepped = machine.stepped.disguised disguise := by
  unfold stepped
  change (if machine.current = machine.stop then _ else _) = _
  split <;> rfl

/-! ### Moves under the disguise -/

theorem mirrors_popReceiver_carrying (lower : height < machine.receivers.size) :
    Mirrors (.carrying height depth this) popReceiver machine := by
  have top : (carried height this machine.receivers).back? = machine.receivers.back? :=
    back?_carried lower
  refine .get ?_ ?_
  · dsimp only [disguised, Disguise.carrying]
    rw [top]
  · split
    · refine mirrors_modify_bind rfl (.modify _ ?_)
      dsimp only [disguised, Disguise.carrying]
      rw [pop_carried lower]
    · split
      · exact mirrors_pushCell _
      · exact .throw _

/-- The current receiver is the same. -/
theorem Carriable.current (carriable : machine.Carriable height depth this) :
    (carried height this machine.receivers).back?.getD machine.scopes.receiver =
      machine.receivers.back?.getD machine.scopes.receiver := by
  rcases carriable.fits.top with same | ⟨_, same⟩
  · exact congrArg (Option.getD · machine.scopes.receiver) same
  · exact same

/-- What a frame leaves of the receivers is the same but for the one more. -/
theorem Marked.cut {frame : Frame} (marked : machine.Marked height depth)
    (saved : machine.frames.back? = some frame) :
    (carried height this machine.receivers).shrink (frame.receiverMark + 1) =
        carried height this (machine.receivers.shrink frame.receiverMark) ∧
      ∀ cell, carried height this ((machine.receivers.shrink frame.receiverMark).push cell) =
        (carried height this (machine.receivers.shrink frame.receiverMark)).push cell := by
  have above := marked.mark frame saved
  refine ⟨shrink_carried marked.room above, carried_push ?_⟩
  rw [Array.size_shrink]
  exact Nat.le_min.mpr ⟨above, marked.room⟩

theorem scriptReturn_carrying {frame : Frame} (result : CellId)
    (carriable : machine.Carriable height depth this)
    (saved : machine.frames.back? = some frame) :
    scriptReturn result frame.raised (machine.disguised (.carrying height depth this)) =
      (scriptReturn result frame machine).disguised (.carrying height depth this) := by
  obtain ⟨cut, pushed⟩ := carriable.toMarked.cut saved
  have frames := (pop_raisedFrom saved carriable.depth).2
  have made : (machine.disguised (.carrying height depth this)).constructedCell frame.raised =
      machine.constructedCell frame := by
    change (carried height this machine.receivers)[frame.receiverMark + 1]?.getD
      ((carried height this machine.receivers).back?.getD machine.scopes.receiver) = _
    rw [getElem?_carried carriable.room (carriable.mark frame saved), carriable.current]
    rfl
  have receivers :
      (if frame.flags.construct then
        ((carried height this machine.receivers).shrink (frame.receiverMark + 1)).push
          (machine.constructedCell frame)
      else (carried height this machine.receivers).shrink (frame.receiverMark + 1)) =
      carried height this (if frame.flags.construct then
        (machine.receivers.shrink frame.receiverMark).push (machine.constructedCell frame)
      else machine.receivers.shrink frame.receiverMark) := by
    rw [cut]
    split
    · exact (pushed _).symm
    · rfl
  unfold scriptReturn
  rw [made]
  unfold disguised
  congr 1

theorem nativeReturn_carrying {frame : Frame} (construct : Bool) (result : CellId)
    (marked : machine.Marked height depth)
    (saved : machine.frames.back? = some frame) :
    nativeReturn construct result frame.raised (machine.disguised (.carrying height depth this)) =
      (nativeReturn construct result frame machine).disguised (.carrying height depth this) := by
  obtain ⟨cut, pushed⟩ := marked.cut saved
  have frames := (pop_raisedFrom saved marked.depth).2
  unfold nativeReturn
  dsimp only [disguised, Disguise.carrying, Frame.raised]
  rw [frames, cut]
  cases construct with
  | true => rw [if_pos rfl, if_pos rfl, pushed]
  | false => rfl

/-- A call under `Disguise.carrying` saves a frame that remembers one receiver more. -/
theorem calling_carrying (carriable : machine.Carriable height depth this) (count : Nat) :
    (machine.disguised (.carrying height depth this)).calling count =
      (machine.calling count).disguised (.carrying height depth this) := by
  unfold calling callFrame
  dsimp only [disguised, Disguise.carrying]
  rw [raisedFrom_push (Nat.le_of_lt carriable.depth), size_carried]
  rfl

/-- So does the host when it enters a function. -/
theorem awaiting_carrying (carriable : machine.Carriable height depth this) (given : CellId) :
    (machine.disguised (.carrying height depth this)).awaiting given =
      (machine.awaiting given).disguised (.carrying height depth this) := by
  unfold awaiting
  dsimp only [disguised, Disguise.carrying]
  rw [raisedFrom_push (Nat.le_of_lt carriable.depth), carried_push carriable.room, Array.size_push,
    Array.size_push, size_carried]
  rfl

theorem Carriable.calling (carriable : machine.Carriable height depth this) (count : Nat) :
    (machine.calling count).Carriable height depth this where
  room := carriable.room
  depth := by
    rw [Machine.calling, Array.size_push]
    exact Nat.lt_succ_of_lt carriable.depth
  mark frame saved := by
    rw [Machine.calling, Array.back?_push] at saved
    cases saved
    exact carriable.room
  attached := carriable.attached
  unlimited := carriable.unlimited
  top := carriable.top

/-- For a machine to stay `Carriable` only memory and output may differ. -/
theorem Carriable.congr {other : Machine} (carriable : machine.Carriable height depth this)
    (same : other = { machine with heap := other.heap, output := other.output }) :
    other.Carriable height depth this := by
  rw [same]
  exact ⟨⟨carriable.room, carriable.depth, carriable.mark⟩, carriable.attached,
    carriable.unlimited, carriable.top⟩

theorem activate_carrying {function : FunctionId} {receiver? : Option CellId}
    {arguments : List CellId} {waiting : Waiting} {made : Activation}
    (carriable : machine.Carriable height depth this)
    (ends : activate function receiver? arguments waiting machine = .ok made final) :
    activate function receiver? arguments waiting
        (machine.disguised (.carrying height depth this)) =
      .ok made.raised (final.disguised (.carrying height depth this)) := by
  have entering (given : CellId)
      (ends : activate function (some given) arguments waiting machine = .ok made final) :
      activate function (some given) arguments waiting
          (machine.disguised (.carrying height depth this)) =
        .ok made.raised (final.disguised (.carrying height depth this)) := by
    have free : (machine.awaiting given).overLimit = false :=
      overLimit_of_unlimited carriable.unlimited
    have lower : height < (machine.awaiting given).receivers.size := by
      rw [awaiting, Array.size_push]
      exact Nat.lt_succ_of_le carriable.room
    have fits : (machine.awaiting given).Fits (.carrying height depth this) :=
      ⟨fun cell => carried_push (Nat.le_of_lt lower) cell, .inl (back?_carried lower)⟩
    rw [activate_some, free, if_neg Bool.false_ne_true] at ends
    obtain ⟨_, entered, entering, ended⟩ := bind_eq_ok.mp ends
    cases ended
    rw [activate_some, awaiting_carrying carriable,
      overLimit_of_unlimited (by exact carriable.unlimited), if_neg Bool.false_ne_true,
      bind_of_ok ((mirrors_enter fits function arguments false).of_ok entering)]
    refine congrArg (EStateM.Result.ok · _) ?_
    unfold activation Activation.raised
    dsimp only [disguised, Disguise.carrying]
    rw [size_raisedFrom, size_carried]
  cases receiver? with
  | some given => exact entering given ends
  | none =>
    have found := receiver_of_attached carriable.attached
    refine (bind_of_ok ((mirrors_receiver carriable.fits).of_ok found)).trans ?_
    exact entering _ ((bind_of_ok found).symm.trans ends)

end Machine

/-- What an instruction leaves to do under the disguise. -/
def Machine.Flow.raised : Flow → Flow
  | .done => .done
  | .suspended activation => .suspended activation.raised

namespace Machine

variable {height depth : Nat} {this : CellId} {machine final : Machine}

theorem callNative_carrying {native : Native} {arguments : List CellId} {construct : Bool}
    {flow : Flow} {frame : Frame} (carriable : machine.Carriable height depth this)
    (saved : machine.frames.back? = some frame)
    (ends : callNative native arguments construct machine = .ok flow final) :
    callNative native arguments construct (machine.disguised (.carrying height depth this)) =
      .ok flow.raised (final.disguised (.carrying height depth this)) := by
  obtain ⟨current, found, ways⟩ := callNative_eq_ok ends
  have found := (mirrors_receiver carriable.fits).of_ok found
  rcases ways with ⟨result, middle, hosted, finishing, rfl⟩ |
    ⟨function, receiver?, passed, middle, made, hosted, activating, rfl⟩
  · have same := callHost_left (leftBy_of_ok hosted)
    have carriable := carriable.congr same
    have saved : middle.frames.back? = some frame := by
      rw [same]
      exact saved
    cases (finishNative_of_some construct result saved).symm.trans finishing
    refine callNative_of_value found ((mirrors_callHost ..).of_ok hosted) ?_
    rw [finishNative_of_some construct result (pop_raisedFrom saved carriable.depth).1,
      nativeReturn_carrying construct result carriable.toMarked saved]
  · have carriable := carriable.congr (callHost_left (leftBy_of_ok hosted))
    exact callNative_of_enter found ((mirrors_callHost ..).of_ok hosted)
      (activate_carrying carriable activating)

theorem call_carrying {count : Nat} {flow : Flow} (carriable : machine.Carriable height depth this)
    (ends : call count machine = .ok flow final) :
    call count (machine.disguised (.carrying height depth this)) =
      .ok flow.raised (final.disguised (.carrying height depth this)) := by
  obtain ⟨room, callee, function, known, content, ways⟩ := call_eq_ok ends
  have ready : (machine.ready count function).Carriable height depth this :=
    (carriable.calling count).congr rfl
  have same : (machine.disguised (.carrying height depth this)).ready count function =
      (machine.ready count function).disguised (.carrying height depth this) := by
    unfold Machine.ready
    rw [calling_carrying carriable]
    rfl
  have free : ((machine.disguised (.carrying height depth this)).calling count).overLimit = false :=
    overLimit_of_unlimited carriable.unlimited
  rw [call_of_callable (by exact room) (by exact known) (by exact content) free, same]
  rcases ways with ⟨script, rfl, entering⟩ | ⟨native, kind, calling⟩
  · rw [show ((machine.disguised _).heap.function function).native = _ from script]
    exact bind_of_ok ((mirrors_enter ready.fits ..).of_ok entering)
  · rw [show ((machine.disguised _).heap.function function).native = _ from kind]
    exact callNative_carrying ready Array.back?_push calling

/-- An instruction does the same under `Disguise.carrying`, if it does not take a receiver where
there is none above the one more. -/
theorem execute_carrying {instruction : Instruction CellId} {flow : Flow}
    (carriable : machine.Carriable height depth this)
    (takes : instruction.opcode = .pushthis → height < machine.receivers.size)
    (ends : execute instruction machine = .ok flow final) :
    execute instruction (machine.disguised (.carrying height depth this)) =
      .ok flow.raised (final.disguised (.carrying height depth this)) := by
  by_cases isCall : instruction.opcode = .call
  · unfold execute at ends
    rw [isCall] at ends
    obtain ⟨count, counted, counting, called⟩ := bind_eq_ok.mp ends
    obtain ⟨kind, size, rfl⟩ := Configuration.countOf_eq_ok counting
    rw [Configuration.execute_of_call isCall kind size]
    exact call_carrying carriable called
  · rw [execute_of_noCall isCall] at ends ⊢
    obtain ⟨_, middle, executed, done⟩ := bind_eq_ok.mp ends
    cases done
    by_cases returns : instruction.opcode = .ret
    · rw [executePlain_of_ret returns] at executed ⊢
      obtain ⟨operand, frame, usable, topmost, saved, rfl⟩ := ret_eq_ok executed
      have returned : ret (machine.disguised (.carrying height depth this)) = _ :=
        ret_of_some usable topmost (pop_raisedFrom saved carriable.depth).1
      rw [scriptReturn_carrying operand.cell carriable saved] at returned
      exact bind_of_ok returned
    · have plain := mirrors_executePlain carriable.fits returns fun isTake =>
        mirrors_popReceiver_carrying (takes isTake)
      exact bind_of_ok (plain.of_ok executed)

/-- The host takes a result, as `concluded`, and leaves one receiver more. -/
theorem concluded_carrying {activation : Activation} (marked : machine.Marked height depth)
    (above : height ≤ activation.receiverMark) (this : CellId) :
    (machine.concluded activation).Marked height depth ∧
      (machine.disguised (.carrying height depth this)).concluded activation.raised =
        (machine.concluded activation).disguised (.carrying height depth this) := by
  refine ⟨⟨?_, marked.depth, marked.mark⟩, ?_⟩
  · unfold concluded
    rw [Array.size_shrink]
    exact Nat.le_min.mpr ⟨above, marked.room⟩
  · unfold concluded
    dsimp only [disguised, Disguise.carrying, Activation.raised]
    rw [shrink_carried marked.room above]

end Machine

namespace Configuration

variable {height depth : Nat} {this : CellId} {inner inner' outer : List Activation}
  {first last before after : Configuration} {passed : List Configuration} {host : Activation}

/-! ### Runs under the disguise -/

/-- A configuration under the disguise: of its activations those made inside the call remember one
receiver more, and the host waits for the call itself. -/
def carrying (height depth : Nat) (this : CellId) (inner : List Activation) (host : Activation)
    (configuration : Configuration) : Configuration :=
  ⟨configuration.machine.disguised (.carrying height depth this),
    inner.map Activation.raised ++ [host]⟩

/-- The disguise executes where the configuration does. -/
theorem Executes.disguised (executes : before.Executes) (pending : before.pending = inner ++ outer)
    (within : host.depth < before.machine.frames.size) :
    (before.carrying height depth this inner host).Executes := by
  have running : before.machine.current ≠ before.machine.stop := executes.current_ne
  have size : (before.machine.disguised (.carrying height depth this)).frames.size =
      before.machine.frames.size := size_raisedFrom
  unfold Executes carrying
  cases inner with
  | nil =>
    change nextMove _ [host] = _
    rw [nextMove, size, if_pos within]
    exact if_neg running
  | cons activation rest =>
    have lower := executes.head_lt activation (by rw [pending]; rfl)
    change nextMove _ (activation.raised :: _) = _
    rw [nextMove, size, if_pos (by exact lower)]
    exact if_neg running

theorem Moves.moves_carrying_of_execute (moves : before.Moves after) (executes : before.Executes)
    (pending : before.pending = inner ++ outer) (later : after.pending = inner' ++ outer)
    (carriable : before.machine.Carriable height depth this)
    (takes : ∀ instruction, before.machine.instruction? = some instruction →
      instruction.opcode = .pushthis → height < before.machine.receivers.size)
    (within : host.depth < before.machine.frames.size) :
    (before.carrying height depth this inner host).Moves
      (after.carrying height depth this inner' host) := by
  obtain ⟨instruction, flow, middle, present, executed, goesOn⟩ :=
    executeNext_eq_ok (executes.advance_eq.symm.trans moves)
  have executed := execute_carrying carriable (takes instruction present) executed
  refine (executes.disguised pending within).advance_eq.trans ?_
  rcases goesOn with ⟨rfl, reached, same⟩ | ⟨activation, rfl, reached, same⟩
  · have same : inner' ++ outer = inner ++ outer := by
      rw [← later, ← pending]
      exact Progress.running.inj same
    rw [List.append_cancel_right same]
    refine (executeNext_of_done (by exact present) executed).trans ?_
    rw [stepped_disguised, ← reached]
    rfl
  · have same : inner' ++ outer = activation :: inner ++ outer := by
      rw [← later, List.cons_append, ← pending]
      exact Progress.running.inj same
    rw [List.append_cancel_right same]
    refine (executeNext_of_suspended (by exact present) executed).trans ?_
    rw [← reached]
    rfl

theorem moves_carrying_of_resume {machine : Machine} {activation : Activation}
    {pending : List Activation} {construct : Bool} {operand : Operand} {frame : Frame}
    (reached : machine.frames.size ≤ activation.depth)
    (waits : activation.waiting = .call construct)
    (topmost : machine.operands.back? = some operand)
    (enough : activation.receiverMark ≤ machine.receivers.size)
    (saved : machine.frames.back? = some frame) (marked : machine.Marked height depth)
    (above : height ≤ activation.receiverMark) :
    Moves
      ⟨machine.disguised (.carrying height depth this), activation.raised :: pending⟩
      ⟨(nativeReturn construct operand.cell frame
        (machine.concluded activation)).stepped.disguised (.carrying height depth this),
        pending⟩ := by
  obtain ⟨still, concluded⟩ := concluded_carrying marked above this
  have moves : Moves
      ⟨machine.disguised (.carrying height depth this), activation.raised :: pending⟩ _ :=
    moves_of_resume (by exact size_raisedFrom.trans_le reached) waits topmost
      (by exact size_carried.symm ▸ Nat.succ_le_succ enough)
      (pop_raisedFrom saved marked.depth).1
  rwa [concluded, nativeReturn_carrying construct operand.cell still (by exact saved),
    stepped_disguised] at moves

/-- A move inside the call is the same under `carrying`. -/
theorem Moves.moves_carrying (moves : before.Moves after)
    (pending : before.pending = inner ++ outer) (later : after.pending = inner' ++ outer)
    (carriable : before.machine.Carriable height depth this)
    (marks : ∀ activation ∈ inner, height ≤ activation.receiverMark)
    (closed : ∀ activation ∈ outer.head?, activation.depth < before.machine.frames.size)
    (takes : ∀ instruction, before.Executes → before.machine.instruction? = some instruction →
      instruction.opcode = .pushthis → height < before.machine.receivers.size)
    (within : host.depth < before.machine.frames.size) :
    (before.carrying height depth this inner host).Moves
      (after.carrying height depth this inner' host) := by
  by_cases executes : before.Executes
  · exact moves.moves_carrying_of_execute executes pending later carriable
      (fun instruction present => takes instruction executes present) within
  · cases moves.step with
    | plain executed | ret executed | enter executed | native executed | suspend executed =>
      exact absurd executed executes
    | @resume machine activation rest construct operand frame reached waits topmost enough saved =>
      cases inner with
      | nil =>
        have low := closed activation (by rw [← List.nil_append outer, ← pending]; rfl)
        exact absurd low (Nat.not_lt_of_le reached)
      | cons top others =>
        obtain ⟨rfl, tail⟩ := List.cons.inj (show activation :: rest = top :: (others ++ outer)
          from pending)
        have same : inner' = others := List.append_cancel_right (later.symm.trans tail)
        rw [same]
        exact moves_carrying_of_resume reached waits topmost enough saved carriable.toMarked
          (marks activation (List.mem_cons_self ..))

section Inside

variable {caller : Machine} {count : Nat}

/-- A machine that is `Inside` a call that leaves the caller's receivers in place is `Carriable`. -/
theorem Inside.carriable
    (inside : Inside caller.scopes (caller.frames.push (caller.callFrame count)).toList outer inner
      before)
    (keeps : Keeps caller 0 caller.receivers.size
      (caller.frames.push (caller.callFrame count)).toList inner before)
    (setting : before.machine.setting = caller.setting) (usable : caller.attached = true)
    (unlimited : caller.limit ≤ 0)
    (current : this = caller.receivers.back?.getD caller.scopes.receiver) :
    before.machine.Carriable caller.receivers.size caller.frames.size this := by
  have size : (caller.frames.push (caller.callFrame count)).toList.length =
      caller.frames.size + 1 := by simp
  have deep := inside.bottom_le
  rw [size] at deep
  refine ⟨⟨keeps.receivers.1, deep, ?_⟩, ?_, ?_, ?_⟩
  · intro frame saved
    rcases Nat.lt_or_eq_of_le deep with more | equal
    · exact (keeps.frames frame (back_mem_drop saved (by rw [size]; exact more))).2
    · -- The call is the innermost one, and the frame is its own.
      have whole := inside.frames.eq_of_length (by rw [size, equal]; simp)
      rw [← Array.toList_inj.mp whole, Array.back?_push] at saved
      cases saved
      exact Nat.le_refl _
  · exact (congrArg Setting.attached setting).trans usable
  · rw [show before.machine.limit = _ from congrArg Setting.limit setting]
    exact unlimited
  · intro equal
    obtain ⟨_, _, above⟩ := inside.scopes
    have same : before.machine.receivers = caller.receivers := by
      have lower := keeps.receivers.2
      rw [List.take_of_length_le (by simp [← equal]), List.take_of_length_le (by simp)] at lower
      exact Array.toList_inj.mp lower
    rw [current, same, above.receiver]

/-- The next move takes a receiver where there is none. -/
def TakesNone (configuration : Configuration) : Prop :=
  configuration.Executes ∧ configuration.machine.receivers = #[] ∧
    ∃ instruction, configuration.machine.instruction? = some instruction ∧
      instruction.opcode = .pushthis

/-- A move that leaves so many receivers takes one above them, if it takes one at all. -/
theorem lt_of_receiversLeft {instruction : Instruction CellId} (executes : before.Executes)
    (present : before.machine.instruction? = some instruction)
    (isTake : instruction.opcode = .pushthis) (left : height ≤ before.receiversLeft)
    (found : ¬ before.TakesNone) : height < before.machine.receivers.size := by
  have filled : 0 < before.machine.receivers.size :=
    Array.size_pos_iff.mpr fun empty => found ⟨executes, empty, instruction, present, isTake⟩
  rw [(operandsLeft_of_executes executes present).2] at left
  unfold Instruction.receiversTaken at left
  rw [isTake] at left
  dsimp only at left
  omega

/-- A run from inside a call to its return is also a run of as many moves between the configurations
that `Configuration.carrying` disguises. -/
theorem Run.exists_run_carrying (run : Run first passed last)
    (inside : Inside caller.scopes (caller.frames.push (caller.callFrame count)).toList outer inner
      first)
    (keeps : Keeps caller 0 caller.receivers.size
      (caller.frames.push (caller.callFrame count)).toList inner first)
    (closed : ∀ activation ∈ outer.head?, activation.depth < caller.frames.size + 1)
    (setting : first.machine.setting = caller.setting) (usable : caller.attached = true)
    (unlimited : caller.limit ≤ 0)
    (current : this = caller.receivers.back?.getD caller.scopes.receiver)
    (back : last.machine.frames.size = caller.frames.size)
    (away : ∀ configuration ∈ passed, configuration.machine.frames.size ≠ caller.frames.size)
    (receivers : ∀ configuration ∈ passed, caller.receivers.size ≤ configuration.receiversLeft)
    (found : ∀ configuration ∈ passed, ¬ configuration.TakesNone)
    (depth : host.depth = caller.frames.size) :
    ∃ steps, steps.length = passed.length ∧
      Run (first.carrying caller.receivers.size caller.frames.size this inner host) steps
        (last.carrying caller.receivers.size caller.frames.size this [] host) := by
  have size : (caller.frames.push (caller.callFrame count)).toList.length =
      caller.frames.size + 1 := by simp
  induction run generalizing inner with
  | done configuration =>
    have deep := inside.bottom_le
    omega
  | @move first second last passed moves rest inductionHypothesis =>
    have deep := inside.bottom_le
    rw [size] at deep
    have carriable := inside.carriable keeps setting usable unlimited current
    have left := receivers first (List.mem_cons_self ..)
    have carries (inner' : List Activation) (later : second.pending = inner' ++ outer) :
        (first.carrying caller.receivers.size caller.frames.size this inner host).Moves
          (second.carrying caller.receivers.size caller.frames.size this inner' host) :=
      moves.moves_carrying inside.pending later carriable keeps.activations
        (fun activation member => Nat.lt_of_lt_of_le (closed activation member) deep)
        (fun instruction executes present isTake => lt_of_receiversLeft executes present isTake left
          (found first (List.mem_cons_self ..)))
        (by omega)
    rcases moves.step.stays inside (by rw [size]; exact closed) with
      ⟨inner', still, keeping⟩ | ⟨rfl, whole, operand, frame, returns⟩
    · obtain ⟨steps, length, run⟩ := inductionHypothesis still
        (keeping caller 0 _ (Nat.zero_le _) left keeps) (moves.setting.trans setting) back
        (fun configuration member => away configuration (List.mem_cons_of_mem _ member))
        (fun configuration member => receivers configuration (List.mem_cons_of_mem _ member))
        (fun configuration member => found configuration (List.mem_cons_of_mem _ member))
      exact ⟨_ :: steps, congrArg (· + 1) length, .move (carries inner' still.pending) run⟩
    · -- The call has returned, and the run is over.
      have size : second.machine.frames.size = caller.frames.size := by
        rw [returns.frames, Array.toList_inj.mp whole, Array.pop_push]
      cases rest with
      | move => exact absurd size (away second (by simp))
      | done =>
        refine ⟨[first.carrying _ _ this [] host], rfl, .move (carries [] ?_) (.done _)⟩
        rw [returns.after]
        exact inside.pending

end Inside

end Configuration

/-! ### The entry and the exit of the host -/

namespace Machine

variable {machine : Machine} {count : Nat} {function : FunctionId} {callee this : CellId}

/-- The machine without the arguments of a call and the callee below them. -/
def withoutArguments (machine : Machine) (count : Nat) : Machine :=
  { machine with operands := machine.operands.shrink (machine.operands.size - (count + 1)) }

/-- A machine that is `ready` to call is the disguise of nothing but itself: its own receiver is the
one more. -/
theorem carriable_ready (usable : machine.attached = true) (unlimited : machine.limit ≤ 0)
    (current : this = machine.receivers.back?.getD machine.scopes.receiver) :
    (machine.ready count function).Carriable machine.receivers.size machine.frames.size this where
  room := Nat.le_refl _
  depth := by
    change _ < (machine.frames.push _).size
    rw [Array.size_push]
    exact Nat.lt_succ_self _
  mark frame saved := by
    cases (Array.back?_push).symm.trans saved
    exact Nat.le_refl _
  attached := usable
  unlimited := unlimited
  top _ := current

/-- The host pushes the receiver and saves the frame, `awaiting`, that the disguise shows. -/
theorem awaiting_ready (plain : machine.flags.construct = false) (function : FunctionId)
    (this : CellId) :
    ({ machine.withoutArguments count with
      heap := (Heap.prepare function machine.heap).2 } : Machine).awaiting this =
      (machine.ready count function).disguised
        (.carrying machine.receivers.size machine.frames.size this) := by
  have frames : raisedFrom machine.frames.size (machine.frames.push (machine.callFrame count)) =
      machine.frames.push (machine.callFrame count).raised := by
    rw [raisedFrom_push (Nat.le_refl _), raisedFrom_of_le (Nat.le_refl _)]
  have size : (machine.operands.shrink (machine.operands.size - (count + 1))).size =
      machine.operands.size - (count + 1) := by
    rw [Array.size_shrink, Nat.min_eq_left (Nat.sub_le _ _)]
  have flags : { machine.flags with construct := false } = machine.flags := by
    rw [← plain]
  unfold awaiting ready calling withoutArguments disguised Disguise.carrying
  dsimp only
  rw [frames, carried_size, flags, size, Array.size_push]
  rfl

theorem prepared_of_function (content : machine.heap.content callee = .function function) :
    prepared callee machine =
      .ok function { machine with heap := (Heap.prepare function machine.heap).2 } := by
  have read : contentOf callee machine = .ok (.function function) machine :=
    congrArg (EStateM.Result.ok · machine) content
  exact bind_of_ok read

/-- With `startInvoke` the host enters a script function as a call does. -/
theorem startInvoke_of_script {middle : Machine}
    (script : (machine.heap.function function).native = none)
    (content : machine.heap.content callee = .function function)
    (plain : machine.flags.construct = false) (unlimited : machine.limit ≤ 0)
    (current : this = machine.receivers.back?.getD machine.scopes.receiver)
    (entering : enter function (machine.argumentCells count) false
      (machine.ready count function) = .ok () middle) :
    startInvoke callee (some this) (machine.argumentCells count)
        (machine.withoutArguments count) =
      .ok (.running [(machine.withoutArguments count).activation .host])
        { middle.disguised (.carrying machine.receivers.size machine.frames.size this) with
          current := middle.current + 1 } := by
  have carriable : (machine.ready count function).Carriable machine.receivers.size
      machine.frames.size this := carriable_ready (enter_eq_ok entering).1 unlimited current
  refine (bind_of_ok (prepared_of_function (by exact content))).trans ((get_bind _ _).trans ?_)
  dsimp only
  rw [show ((Heap.prepare function (machine.withoutArguments count).heap).2.function
    function).native = none from (native_prepare function machine.heap).trans script]
  have activated : activate function (some this) (machine.argumentCells count) .host
      { machine.withoutArguments count with heap := (Heap.prepare function machine.heap).2 } =
      .ok ((machine.withoutArguments count).activation .host)
        { middle.disguised (.carrying machine.receivers.size machine.frames.size this) with
          current := middle.current + 1 } := by
    rw [activate_some, awaiting_ready plain, overLimit_of_unlimited (by exact unlimited),
      if_neg Bool.false_ne_true, bind_of_ok ((mirrors_enter carriable.fits ..).of_ok entering)]
    rfl
  exact bind_of_ok activated

/-- Once a function is entered, `invoke` waits for the end of the loop. -/
theorem invoke_of_running {View : Type} {observe : Machine → View → View} {started : Machine}
    {receiver? : Option CellId} {arguments : List CellId} {pending : List Activation}
    (starts : startInvoke callee receiver? arguments machine = .ok (.running pending) started)
    (fuel : Nat) (view : View) :
    invoke observe fuel callee receiver? arguments view machine =
      loop observe fuel pending view started := by
  unfold invoke
  rw [starts]

end Machine

namespace Configuration

variable {first last : Configuration} {passed : List Configuration} {count : Nat}
  {function : FunctionId}

/-- A function that has just been entered runs `Inside` its call, above all receivers of the caller.
-/
theorem inside_entered {entered : Machine}
    (entering : Entered (first.machine.ready count function) entered) :
    Inside first.machine.scopes (first.machine.frames.push (first.machine.callFrame count)).toList
        first.pending [] ⟨entered.stepped, first.pending⟩ ∧
      Keeps first.machine 0 first.machine.receivers.size
        (first.machine.frames.push (first.machine.callFrame count)).toList []
        ⟨entered.stepped, first.pending⟩ := by
  have frames : entered.stepped.frames =
      first.machine.frames.push (first.machine.callFrame count) :=
    (frames_stepped _).trans entering.frames
  have spares : Spares (count + 1) 0 first.machine entered.stepped :=
    (spares_entered entering).stepped
  refine ⟨⟨?_, rfl, ?_, 1, ?_, ?_⟩, ⟨Nat.zero_le _, rfl⟩, spares.receivers _ (Nat.le_refl _), ?_,
    by simp⟩
  · rw [frames]
  · rw [frames]
    exact Nat.le_of_eq Array.length_toList
  · rw [frames, Array.length_toList]
    exact Nat.add_comm _ _
  · rw [scopes_stepped]
    exact Scopes.Above.opens ⟨rfl, (Nat.zero_add _).symm, rfl, rfl⟩ entering.scopes
  · rw [frames, List.drop_length]
    simp

/-- A function that has just been entered and comes to its return has not started at the end of the
run. -/
theorem Run.running_of_entered {entered : Machine} {pending : List Activation}
    (run : Run ⟨entered.stepped, pending⟩ passed last) (moved : passed ≠ [])
    (lower : ∀ activation ∈ pending.head?, activation.depth < entered.frames.size) :
    entered.current ≠ entered.stop := by
  obtain ⟨second, rest, rfl, moves, run⟩ := run.cases_move moved
  have executes : Executes ⟨entered.stepped, pending⟩ := by
    cases moves.step with
    | plain executed | ret executed | enter executed | native executed | suspend executed =>
      exact executed
    | resume reached =>
      rw [frames_stepped] at reached
      exact absurd (lower _ rfl) (Nat.not_lt_of_le reached)
  intro equal
  have same : entered.stepped = entered := if_pos equal
  rw [same] at executes
  exact executes.current_ne equal

/-- The host takes the result of a function that has returned, and the receiver that it has pushed
for it. -/
theorem advance_carrying {caller machine : Machine} {operand : Operand}
    (frames : machine.frames.size = caller.frames.size)
    (receivers : machine.receivers.size = caller.receivers.size)
    (topmost : machine.operands.back? = some operand) (this : CellId) :
    advance [caller.activation .host]
        (machine.disguised (.carrying caller.receivers.size caller.frames.size this)) =
      .ok (.finished (some operand.cell))
        { machine with current := caller.current, operands := machine.operands.pop } := by
  have returned : (raisedFrom caller.frames.size machine.frames).size ≤ caller.frames.size :=
    (size_raisedFrom.trans frames).le
  have enough : caller.receivers.size ≤
      (carried caller.receivers.size this machine.receivers).size := by
    rw [size_carried, receivers]
    exact Nat.le_succ _
  have whole : machine.receivers.shrink caller.receivers.size = machine.receivers := by
    apply Array.toList_inj.mp
    rw [← receivers, Array.toList_shrink, ← Array.length_toList, List.take_length]
  have advanced : advance [caller.activation .host]
      (machine.disguised (.carrying caller.receivers.size caller.frames.size this)) = _ :=
    advance_of_returned returned topmost enough
  refine advanced.trans (congrArg (EStateM.Result.ok _) ?_)
  unfold concluded disguised Disguise.carrying activation
  dsimp only [id]
  rw [raisedFrom_of_le frames.le, shrink_carried_self receivers.ge, whole]

/-- A call of a script function, not as a constructor, and the first configuration after it with as
many frames as there were, on a machine without a limit of frames. If the call leaves the caller's
receivers alone, by `receiversLeft`, and no configuration `TakesNone`, so that it never takes a
receiver where there is none, the host that uses `invoke` on the machine `Machine.withoutArguments`
gets the same result, and finds the machine that the call has left but for the result and the
program counter, which is where it was. -/
theorem Run.invoke_agrees (run : Run first passed last) (executes : first.Executes)
    (calls : first.machine.Calls count function)
    (script : (first.machine.heap.function function).native = none)
    (plain : first.machine.flags.construct = false) (unlimited : first.machine.limit ≤ 0)
    (moved : passed ≠ []) (back : last.machine.frames.size = first.machine.frames.size)
    (away : ∀ configuration ∈ passed.tail,
      configuration.machine.frames.size ≠ first.machine.frames.size)
    (receivers : ∀ configuration ∈ passed.tail,
      (first.machine.callFrame count).receiverMark ≤ configuration.receiversLeft)
    (found : ∀ configuration ∈ passed.tail, ¬ configuration.TakesNone) :
    ∃ callee this result, first.machine.callee? count = some callee ∧
      receiver first.machine = .ok this first.machine ∧
      last.machine.cells.getLast? = some result ∧
      ∀ {View : Type} (observe : Machine → View → View) (view : View) (fuel : Nat),
        passed.length ≤ fuel → ∃ shown,
          invoke observe fuel callee (some this) (first.machine.argumentCells count) view
            (first.machine.withoutArguments count) =
            (.finished (some result), shown,
              { last.machine with
                current := first.machine.current, operands := last.machine.operands.pop }) := by
  obtain ⟨body, before, operand, split, frames, pending, returns, scopes, keeps⟩ :=
    run.exists_matching executes calls script moved back away
  obtain ⟨second, rest, rfl, moves, later⟩ := run.cases_move moved
  obtain ⟨middle, entering, rfl⟩ := moves.exists_enter executes calls script
  rw [plain] at entering
  obtain ⟨usable, entered⟩ := enter_eq_ok entering
  obtain ⟨callee, known, content⟩ := calls.callee
  obtain ⟨inside, kept⟩ := inside_entered entered
  have deep : middle.frames.size = first.machine.frames.size + 1 := by
    rw [entered.frames]
    exact Array.size_push _
  have running : middle.current ≠ middle.stop := by
    refine later.running_of_entered ?_ fun activation member => ?_
    · rintro rfl
      cases later
      rw [frames_stepped, deep] at back
      exact absurd back (Nat.succ_ne_self _)
    · rw [deep]
      exact Nat.lt_succ_of_lt (executes.head_lt activation member)
  have size : last.machine.receivers.size = first.machine.receivers.size := by
    have kept := keeps 0 _ (Nat.zero_le _) (Nat.le_refl _) (fun _ _ => Nat.zero_le _)
      fun configuration member => receivers configuration (by rw [split]; simp [member])
    have room := kept.receivers.1
    rw [returns.after, receivers_stepped]
    unfold scriptReturn callFrame
    dsimp only
    rw [plain, if_neg Bool.false_ne_true, Array.size_shrink]
    exact Nat.min_eq_left room
  have closed (activation : Activation) (member : activation ∈ first.pending.head?) :
      activation.depth < first.machine.frames.size + 1 :=
    Nat.lt_succ_of_lt (executes.head_lt activation member)
  obtain ⟨steps, length, follows⟩ :=
    later.exists_run_carrying inside kept closed moves.setting usable
    unlimited rfl back away receivers found
    (show (first.machine.activation .host).depth = _ from rfl)
  have topmost : last.machine.operands.back? = some { cell := operand.cell } := by
    rw [returns.operands, Array.back?_push]
  have ends := advance_carrying back size topmost
    (first.machine.receivers.back?.getD first.machine.scopes.receiver)
  refine ⟨callee, _, operand.cell, known, receiver_of_attached usable, ?_, ?_⟩
  · simp [cells, returns.operands]
  intro View observe view fuel enough
  obtain ⟨more, rfl⟩ : ∃ more, fuel = steps.length + (more + 1) :=
    ⟨fuel - (steps.length + 1), by rw [List.length_cons] at enough; omega⟩
  have follows : loop observe (steps.length + (more + 1)) [first.machine.activation .host] view
      (middle.stepped.disguised _) = _ := follows.loop_eq (more + 1) view
  rw [stepped, if_neg running] at follows
  have invoked : invoke observe (steps.length + (more + 1)) callee _
      (first.machine.argumentCells count) view (first.machine.withoutArguments count) = _ :=
    invoke_of_running (startInvoke_of_script script content plain unlimited rfl entering) ..
  exact ⟨_, invoked.trans (follows.trans (loop_of_finished ends ..))⟩

/-- A machine about to call a function that returns its receiver, with one argument. -/
def sampleMethod : Configuration where
  machine :=
    { heap :=
        { cells := #[{ content := .function ⟨0⟩ }, {}, { content := .null }]
          functions := #[{ entry := 1, params := [Text.ofString "x"] }] }
      scopes := { receiver := ⟨1⟩ }
      code := #[{ opcode := .call, datum := .ofNumber 1 },
        { opcode := .fetch, datum := .ofName (Text.ofString "this") }, { opcode := .pushim },
        { opcode := .ret }]
      stop := 4
      operands := #[{ cell := ⟨0⟩ }, { cell := ⟨1⟩ }]
      receivers := #[⟨1⟩, ⟨2⟩] }
  pending := []

theorem invoke_agrees_sample :
    ∃ result, (sampleMethod.after 4).machine.cells.getLast? = some result ∧
      ∃ shown final, Machine.invoke (fun machine addresses => addresses ++ [machine.current]) 4 ⟨0⟩
        (some ⟨2⟩) [⟨1⟩] [] (sampleMethod.machine.withoutArguments 1) =
          (.finished (some result), shown, final) := by
  have run := run_after sampleMethod 4 (by decide +kernel)
  have calls : sampleMethod.machine.Calls 1 ⟨0⟩ :=
    ⟨⟨_, rfl, rfl, rfl, rfl⟩, by decide, ⟨0⟩, rfl, rfl⟩
  have filled : ∀ configuration ∈ ((List.range 4).map sampleMethod.after).tail,
      configuration.machine.receivers ≠ #[] := by decide +kernel
  obtain ⟨callee, this, result, known, found, top, agrees⟩ := run.invoke_agrees rfl calls rfl rfl
    (by decide) (by decide) (by decide +kernel) (by decide +kernel) (by decide +kernel)
    fun configuration member takes => filled configuration member takes.2.1
  cases known
  cases found
  obtain ⟨shown, invoked⟩ :=
    agrees (fun machine addresses => addresses ++ [machine.current]) [] 4 (by decide)
  exact ⟨result, top, shown, _, invoked⟩

/-- A machine without receivers about to call a function. It calls another one, which takes a
receiver and leaves a text as one, and returns the receiver that it then has itself. -/
def sampleTaking : Configuration where
  machine :=
    { heap :=
        { cells := #[{ content := .function ⟨0⟩ }, { content := .function ⟨1⟩ },
            { content := .object ⟨0⟩ }]
          objects := #[{}]
          functions := #[{ entry := 1 }, { entry := 6 }] }
      scopes := { receiver := ⟨2⟩ }
      code := #[{ opcode := .call, datum := .ofNumber 0 },
        { opcode := .push, datum := { kind := .object, object := some ⟨1⟩ } },
        { opcode := .call, datum := .ofNumber 0 },
        { opcode := .fetch, datum := .ofName (Text.ofString "this") }, { opcode := .pushim },
        { opcode := .ret },
        { opcode := .pushthis }, { opcode := .push, datum := .ofText (Text.ofString "abc") },
        { opcode := .replprop, datum := .ofName (Text.ofString "length") }, { opcode := .ret }]
      stop := 10
      operands := #[{ cell := ⟨0⟩ }] }
  pending := []

/-- The host gets another result than the call in the run of `sampleTaking`, whose function takes a
receiver where there is none, though it leaves all operands and receivers of the caller alone. -/
theorem invoke_differs :
    (∃ passed, Run sampleTaking passed (sampleTaking.after 10) ∧ passed ≠ [] ∧
      (∀ configuration ∈ passed.tail,
        configuration.machine.frames.size ≠ sampleTaking.machine.frames.size) ∧
      (∀ configuration ∈ passed.tail,
        (sampleTaking.machine.callFrame 0).operandMark ≤ configuration.operandsLeft) ∧
      ∀ configuration ∈ passed.tail,
        (sampleTaking.machine.callFrame 0).receiverMark ≤ configuration.receiversLeft) ∧
    sampleTaking.Executes ∧ sampleTaking.machine.Calls 0 ⟨0⟩ ∧
    (sampleTaking.machine.heap.function ⟨0⟩).native = none ∧
    sampleTaking.machine.flags.construct = false ∧ sampleTaking.machine.limit ≤ 0 ∧
    (sampleTaking.after 10).machine.frames.size = sampleTaking.machine.frames.size ∧
    (sampleTaking.after 10).machine.cells.getLast? = some ⟨2⟩ ∧
    (sampleTaking.after 10).machine.heap.content ⟨2⟩ = .object ⟨0⟩ ∧
    receiver sampleTaking.machine = .ok ⟨2⟩ sampleTaking.machine ∧
    (Machine.invoke (fun _ view => view) 20 ⟨0⟩ (some ⟨2⟩) [] ()
      (sampleTaking.machine.withoutArguments 0)).1 = .finished (some ⟨5⟩) ∧
    (Machine.invoke (fun _ view => view) 20 ⟨0⟩ (some ⟨2⟩) [] ()
      (sampleTaking.machine.withoutArguments 0)).2.2.heap.content ⟨5⟩ =
        .text (Text.ofString "abc") :=
  ⟨⟨_, run_after sampleTaking 10 (by decide +kernel), by decide, by decide +kernel,
    by decide +kernel, by decide +kernel⟩, rfl,
    ⟨⟨_, rfl, rfl, rfl, by decide +kernel⟩, by decide, ⟨0⟩, rfl, rfl⟩, rfl, rfl, by decide,
    by decide +kernel, by decide +kernel, by decide +kernel, rfl, by decide +kernel,
    by decide +kernel⟩

end Configuration

end ScriptEngine
