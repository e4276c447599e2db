/-
This file compares a machine that was reset with a new one. A new machine starts with the receiver
of the scope store as its only receiver, and a machine that was reset starts with none; where it has
none it falls back on the same one. So the new machine has one receiver more, below all others, and
its frames remember one more, until a receiver is taken where the other machine has none. From then
on both have the same receivers, but the frames that were there at that moment still remember one
more on the new machine. That is noticed in one way only: such a frame is left while there are more
receivers than it remembers, and the new machine keeps one of them.
-/

import ScriptEngine.Proofs.FrameLimit
import ScriptEngine.Proofs.HostEntry
import ScriptEngine.Proofs.Lockstep

namespace ScriptEngine

open Machine

/-! ### Machines that differ in receivers and marks -/

/-- A frame without its mark of receivers. -/
def Frame.unmarked (frame : Frame) : Frame :=
  { frame with receiverMark := 0 }

namespace Machine

/-- The machines differ in their receivers, and in how many of them their frames remember. -/
structure Like (machine other : Machine) : Prop where
  rest : other = { machine with receivers := other.receivers, frames := other.frames }
  frames : other.frames.map Frame.unmarked = machine.frames.map Frame.unmarked

variable {machine other : Machine}

theorem Like.back? (like : machine.Like other) :
    other.frames.back?.map Frame.unmarked = machine.frames.back?.map Frame.unmarked := by
  rw [← Array.back?_map, ← Array.back?_map, like.frames]

/-- A frame that is left gives back the same on both machines, which stay `Like`. -/
theorem Like.leaveFrame (like : machine.Like other) :
    (∃ frame frame' left left', Machine.leaveFrame machine = .ok frame left ∧
        Machine.leaveFrame other = .ok frame' left' ∧ left.Like left') ∨
      ∃ fault, Machine.leaveFrame machine = .error fault machine ∧
        Machine.leaveFrame other = .error fault other := by
  have top := like.back?
  cases saved : machine.frames.back? with
  | none =>
    rw [saved, Option.map_none, Option.map_eq_none_iff] at top
    have place : other.place = machine.place := by
      rw [like.rest]
      rfl
    refine .inr ⟨_, leaveFrame_of_none saved, ?_⟩
    rw [leaveFrame_of_none top, place]
  | some frame =>
    rw [saved, Option.map_some] at top
    obtain ⟨frame', saved', same⟩ := Option.map_eq_some_iff.mp top
    refine .inl ⟨_, _, _, _, leaveFrame_of_some saved, leaveFrame_of_some saved', ?_, ?_⟩
    · have flags : frame'.unmarked.flags = frame.unmarked.flags := congrArg Frame.flags same
      have mark : frame'.unmarked.operandMark = frame.unmarked.operandMark :=
        congrArg Frame.operandMark same
      rw [show frame'.flags = frame.flags from flags,
        show frame'.operandMark = frame.operandMark from mark, like.rest]
    · rw [Array.map_pop, Array.map_pop, like.frames]

/-- A script fault goes out by `unwind` in the same way on both machines. -/
theorem Like.unwind (like : machine.Like other) (fault : ScriptFault)
    {pending pending' : List Activation}
    (waiting : pending'.map Activation.waiting = pending.map Activation.waiting) :
    ∃ failure left left', Machine.unwind fault pending machine = .error failure left ∧
      Machine.unwind fault pending' other = .error failure left' ∧ left.Like left' := by
  induction pending generalizing fault machine other pending' with
  | nil =>
    rw [List.map_nil, List.map_eq_nil_iff] at waiting
    rw [waiting]
    exact ⟨_, _, _, rfl, rfl, like⟩
  | cons activation pending inductionHypothesis =>
    obtain ⟨activation', rest, rfl, waits, waiting⟩ := List.map_eq_cons_iff.mp waiting
    unfold Machine.unwind
    rw [waits]
    cases activation.waiting with
    | host => exact ⟨_, _, _, rfl, rfl, like⟩
    | call construct =>
      dsimp only
      rcases like.leaveFrame with ⟨_, _, left, left', leaving, leaving', like⟩ | ⟨_, fails, fails'⟩
      · have current : left'.current = left.current := by rw [like.rest]
        rw [bind_of_ok leaving, bind_of_ok leaving', get_bind, get_bind, current]
        exact inductionHypothesis like _ waiting
      · exact ⟨_, _, _, bind_of_error fails, bind_of_error fails', like⟩

end Machine

/-! ### One receiver more, and none more but marks for it -/

/-- Frames of which the lowest remember one receiver more. -/
def raisedBelow (count : Nat) (frames : Array Frame) : Array Frame :=
  frames.mapIdx fun index frame => if index < count then frame.raised else frame

section Frames

variable {count : Nat} {frames : Array Frame} {frame : Frame}

@[simp]
theorem size_raisedBelow : (raisedBelow count frames).size = frames.size :=
  Array.size_mapIdx

theorem raisedBelow_push (frames : Array Frame) (frame : Frame) :
    raisedBelow count (frames.push frame) =
      (raisedBelow count frames).push (if frames.size < count then frame.raised else frame) :=
  Array.mapIdx_push

theorem raisedBelow_min (count : Nat) (frames : Array Frame) :
    raisedBelow (min count frames.size) frames = raisedBelow count frames := by
  refine Array.ext (by simp) fun index here _ => ?_
  rw [size_raisedBelow] at here
  simp only [raisedBelow, Array.getElem_mapIdx, Nat.lt_min, here, and_true]

theorem raisedBelow_size (frames : Array Frame) :
    raisedBelow frames.size frames = raisedFrom 0 frames := by
  refine Array.ext (by simp) fun index here _ => ?_
  rw [size_raisedBelow] at here
  simp only [raisedBelow, raisedFrom, Array.getElem_mapIdx, here, Nat.zero_le, if_true]

theorem map_unmarked_mapIdx {change : Nat → Frame → Frame}
    (same : ∀ index frame, (change index frame).unmarked = frame.unmarked) (frames : Array Frame) :
    (frames.mapIdx change).map Frame.unmarked = frames.map Frame.unmarked := by
  refine Array.ext (by simp) fun index _ _ => ?_
  simp only [Array.getElem_map, Array.getElem_mapIdx, same]

theorem map_unmarked_raisedBelow (count : Nat) (frames : Array Frame) :
    (raisedBelow count frames).map Frame.unmarked = frames.map Frame.unmarked :=
  map_unmarked_mapIdx (fun _ _ => by split <;> rfl) frames

theorem map_unmarked_raisedFrom (depth : Nat) (frames : Array Frame) :
    (raisedFrom depth frames).map Frame.unmarked = frames.map Frame.unmarked :=
  map_unmarked_mapIdx (fun _ _ => by split <;> rfl) frames

end Frames

/-- The disguise under which a machine that was reset is a new one. At first it is `carrying` the
receiver of the scope store below all others; later it has the same receivers, and so many of the
lowest frames remember one more, `raisedBelow`. -/
def Disguise.renewing (this : CellId) : (open? : Option Nat) → Disguise
  | none => .carrying 0 0 this
  | some count => { receivers := id, frames := raisedBelow count, limit := id }

/-- The activation on the new machine. -/
def Activation.renewed (activation : Activation) : (open? : Option Nat) → Activation
  | none => activation.raised
  | some count => if activation.depth ≤ count then activation.raised else activation

namespace Machine

variable {Result Next : Type} {this : CellId} {open? : Option Nat} {machine final : Machine}

/-- The new machine that a machine is compared with. -/
def renewing (this : CellId) (open? : Option Nat) (machine : Machine) : Machine :=
  machine.disguised (.renewing this open?)

theorem size_frames_renewing (this : CellId) (open? : Option Nat) (machine : Machine) :
    (machine.renewing this open?).frames.size = machine.frames.size := by
  cases open? with
  | none => exact size_raisedFrom
  | some count => exact size_raisedBelow

theorem limit_renewing (this : CellId) (open? : Option Nat) (machine : Machine) :
    (machine.renewing this open?).limit = machine.limit := by
  cases open? <;> rfl

theorem like_renewing (this : CellId) (open? : Option Nat) (machine : Machine) :
    machine.Like (machine.renewing this open?) := by
  cases open? with
  | none => exact ⟨rfl, map_unmarked_raisedFrom 0 _⟩
  | some count => exact ⟨rfl, map_unmarked_raisedBelow count _⟩

/-- What the comparison needs of a machine: the receiver that it falls back on is the one more, and
the frames that remember one more are there. -/
structure Renewable (this : CellId) (open? : Option Nat) (machine : Machine) : Prop where
  attached : machine.attached = true
  receiver : machine.scopes.receiver = this
  frames : ∀ count ∈ open?, count ≤ machine.frames.size

namespace Renewable

/-- For a machine to stay `Renewable` it is enough that the scope store is the same and no frame is
gone. -/
theorem mono {later : Machine} (renewable : machine.Renewable this open?)
    (attached : later.attached = machine.attached)
    (receiver : later.scopes.receiver = machine.scopes.receiver)
    (frames : machine.frames.size ≤ later.frames.size) : later.Renewable this open? :=
  ⟨attached.trans renewable.attached, receiver.trans renewable.receiver,
    fun count member => Nat.le_trans (renewable.frames count member) frames⟩

theorem fits (renewable : machine.Renewable this open?) :
    machine.Fits (.renewing this open?) := by
  cases open? with
  | some count => exact ⟨fun _ => rfl, .inl rfl⟩
  | none =>
    refine ⟨carried_push (Nat.zero_le _), ?_⟩
    by_cases empty : machine.receivers = #[]
    · refine .inr ⟨renewable.attached, ?_⟩
      rw [empty, renewable.receiver]
      rfl
    · exact .inl (back?_carried (Array.size_pos_iff.mpr empty))

/-- A frame that is saved remembers all receivers on both machines. -/
theorem save (renewable : machine.Renewable this open?) (frame : Frame) (receivers : Array CellId)
    (mark : frame.receiverMark = receivers.size) :
    (Disguise.renewing this open?).frames (machine.frames.push frame) =
      ((Disguise.renewing this open?).frames machine.frames).push
        { frame with
          receiverMark := ((Disguise.renewing this open?).receivers receivers).size } := by
  cases open? with
  | none =>
    refine (raisedFrom_push (Nat.zero_le _) frame).trans ?_
    unfold Frame.raised Disguise.renewing Disguise.carrying
    dsimp only
    rw [size_carried, mark]
  | some count =>
    refine (raisedBelow_push machine.frames frame).trans ?_
    rw [if_neg (Nat.not_lt_of_le (renewable.frames count rfl))]
    unfold Disguise.renewing
    dsimp only [id]
    rw [← mark]

theorem calling (renewable : machine.Renewable this open?) (count : Nat) :
    (machine.calling count).Renewable this open? ∧
      (machine.renewing this open?).calling count =
        (machine.calling count).renewing this open? := by
  refine ⟨renewable.mono rfl rfl ?_, ?_⟩
  · unfold Machine.calling
    rw [Array.size_push]
    exact Nat.le_succ _
  · have saved := renewable.save (machine.callFrame count) machine.receivers rfl
    unfold Machine.calling renewing disguised
    dsimp only
    rw [saved]
    rfl

theorem awaiting (renewable : machine.Renewable this open?) (given : CellId) :
    (machine.awaiting given).Renewable this open? ∧
      (machine.renewing this open?).awaiting given =
        (machine.awaiting given).renewing this open? := by
  refine ⟨renewable.mono rfl rfl ?_, ?_⟩
  · unfold Machine.awaiting
    rw [Array.size_push]
    exact Nat.le_succ _
  · have pushed := renewable.fits.push given
    have saved := renewable.save
      { pc := machine.current
        flags := machine.flags
        operandMark := machine.operands.size
        receiverMark := (machine.receivers.push given).size } (machine.receivers.push given) rfl
    unfold Machine.awaiting renewing disguised
    dsimp only
    rw [saved, pushed]

end Renewable

theorem overLimit_renewing (this : CellId) (open? : Option Nat) (machine : Machine) :
    (machine.renewing this open?).overLimit = machine.overLimit := by
  unfold overLimit
  rw [limit_renewing, size_frames_renewing]

/-! ### Actions on both machines -/

/-- What an action comes to on the new machine, measured by what it comes to on the other: a result
that is changed in some way, or the same fault. -/
def Agrees (this : CellId) (open? : Option Nat) (change : Result → Result) :
    EStateM.Result Fault Machine Result → EStateM.Result Fault Machine Result → Prop
  | .ok result final, other => other = .ok (change result) (final.renewing this open?)
  | .error fault final, other => ∃ left, other = .error fault left ∧ final.Like left

/-- Two actions agree, by `Agrees`, one on a machine and the other on the new one. -/
def Pairs (this : CellId) (open? : Option Nat) (change : Result → Result)
    (action other : Action Result) (machine : Machine) : Prop :=
  Agrees this open? change (action machine) (other (machine.renewing this open?))

namespace Pairs

variable {change : Result → Result} {changeNext : Next → Next} {action other : Action Result}

theorem pure (result : Result) :
    Pairs this open? change (Pure.pure result) (Pure.pure (change result)) machine :=
  rfl

/-- What `Mirrors` the disguise agrees with itself, by `Pairs`. -/
theorem of_mirrors (mirrors : Mirrors (.renewing this open?) action machine) :
    Pairs this open? id action action machine := by
  unfold Pairs
  rw [show action (machine.renewing this open?) = _ from mirrors]
  cases action machine with
  | ok result final => rfl
  | error fault final => exact ⟨_, rfl, like_renewing this open? final⟩

theorem of_ok {result : Result} (pairs : Pairs this open? change action other machine)
    (ends : action machine = .ok result final) :
    other (machine.renewing this open?) = .ok (change result) (final.renewing this open?) := by
  unfold Pairs at pairs
  rw [ends] at pairs
  exact pairs

theorem of_error {fault : Fault} (pairs : Pairs this open? change action other machine)
    (ends : action machine = .error fault final) :
    ∃ left, other (machine.renewing this open?) = .error fault left ∧ final.Like left := by
  unfold Pairs at pairs
  rw [ends] at pairs
  exact pairs

theorem bind {next otherNext : Result → Action Next}
    (first : Pairs this open? change action other machine)
    (second : ∀ result middle, action machine = .ok result middle →
      Pairs this open? changeNext (next result) (otherNext (change result)) middle) :
    Pairs this open? changeNext (action >>= next) (other >>= otherNext) machine := by
  cases ends : action machine with
  | ok result middle =>
    unfold Pairs
    rw [bind_of_ok ends, bind_of_ok (first.of_ok ends)]
    exact second result middle ends
  | error fault middle =>
    obtain ⟨left, fails, like⟩ := first.of_error ends
    unfold Pairs
    rw [bind_of_error ends, bind_of_error fails]
    exact ⟨left, rfl, like⟩

/-- A script fault leaves a frame on both machines. -/
theorem leavingFrame (pairs : Pairs this open? change action other machine) :
    Pairs this open? change (leavingFrame action) (leavingFrame other) machine := by
  cases ends : action machine with
  | ok result final =>
    unfold Pairs Machine.leavingFrame
    rw [tryCatch_of_ok ends, tryCatch_of_ok (pairs.of_ok ends)]
    rfl
  | error fault final =>
    obtain ⟨left, fails, like⟩ := pairs.of_error ends
    unfold Pairs Machine.leavingFrame
    rw [tryCatch_of_error ends, tryCatch_of_error fails]
    cases fault with
    | malformed | breakdown => exact ⟨left, rfl, like⟩
    | script fault =>
      dsimp only
      rcases like.leaveFrame with ⟨_, _, _, _, leaving, leaving', like⟩ | ⟨_, fails, fails'⟩
      · rw [bind_of_ok leaving, bind_of_ok leaving']
        exact ⟨_, rfl, like⟩
      · rw [bind_of_error fails, bind_of_error fails']
        exact ⟨_, rfl, like⟩

end Pairs

/-! ### Leaving frames -/

/-- The topmost frames of both machines leave the same receivers. -/
structure Cuts (this : CellId) (open? : Option Nat) (frame frame' : Frame) (machine : Machine) :
    Prop where
  saved : machine.frames.back? = some frame
  savedNew : (machine.renewing this open?).frames.back? = some frame'
  same : frame'.unmarked = frame.unmarked
  pop : (machine.renewing this open?).frames.pop =
    (Disguise.renewing this open?).frames machine.frames.pop
  cut : (machine.renewing this open?).receivers.shrink frame'.receiverMark =
    (Disguise.renewing this open?).receivers (machine.receivers.shrink frame.receiverMark)
  made : (machine.renewing this open?).receivers[frame'.receiverMark]? =
    machine.receivers[frame.receiverMark]?

theorem receivers_push_renewing (receivers : Array CellId) (cell : CellId) :
    (Disguise.renewing this open?).receivers (receivers.push cell) =
      ((Disguise.renewing this open?).receivers receivers).push cell := by
  cases open? with
  | none => exact carried_push (Nat.zero_le _) cell
  | some count => rfl

namespace Cuts

variable {frame frame' : Frame}

theorem pc (cuts : Cuts this open? frame frame' machine) : frame'.pc = frame.pc :=
  show frame'.unmarked.pc = frame.unmarked.pc from congrArg Frame.pc cuts.same

theorem flags (cuts : Cuts this open? frame frame' machine) : frame'.flags = frame.flags :=
  show frame'.unmarked.flags = frame.unmarked.flags from congrArg Frame.flags cuts.same

theorem operandMark (cuts : Cuts this open? frame frame' machine) :
    frame'.operandMark = frame.operandMark :=
  show frame'.unmarked.operandMark = frame.unmarked.operandMark from
    congrArg Frame.operandMark cuts.same

theorem scriptReturn (cuts : Cuts this open? frame frame' machine)
    (renewable : machine.Renewable this open?) (result : CellId) :
    Machine.scriptReturn result frame' (machine.renewing this open?) =
      (Machine.scriptReturn result frame machine).renewing this open? := by
  have current : (machine.renewing this open?).receivers.back?.getD machine.scopes.receiver =
      machine.receivers.back?.getD machine.scopes.receiver := by
    rcases renewable.fits.top with same | ⟨_, same⟩
    · exact congrArg (Option.getD · machine.scopes.receiver) same
    · exact same
  have made : (machine.renewing this open?).constructedCell frame' =
      machine.constructedCell frame := by
    unfold constructedCell
    rw [cuts.made]
    exact congrArg (Option.getD _) current
  have receivers :
      (if frame.flags.construct then
        ((machine.renewing this open?).receivers.shrink frame'.receiverMark).push
          (machine.constructedCell frame)
      else (machine.renewing this open?).receivers.shrink frame'.receiverMark) =
      (Disguise.renewing this open?).receivers (if frame.flags.construct then
        (machine.receivers.shrink frame.receiverMark).push (machine.constructedCell frame)
      else machine.receivers.shrink frame.receiverMark) := by
    rw [cuts.cut]
    split
    · exact (receivers_push_renewing _ _).symm
    · rfl
  unfold Machine.scriptReturn
  rw [made, cuts.pc, cuts.flags, cuts.operandMark, receivers, cuts.pop]
  rfl

theorem nativeReturn (cuts : Cuts this open? frame frame' machine) (construct : Bool)
    (result : CellId) :
    Machine.nativeReturn construct result frame' (machine.renewing this open?) =
      (Machine.nativeReturn construct result frame machine).renewing this open? := by
  have receivers :
      (if construct then
        ((machine.renewing this open?).receivers.shrink frame'.receiverMark).push result
      else (machine.renewing this open?).receivers.shrink frame'.receiverMark) =
      (Disguise.renewing this open?).receivers (if construct then
        (machine.receivers.shrink frame.receiverMark).push result
      else machine.receivers.shrink frame.receiverMark) := by
    rw [cuts.cut]
    split
    · exact (receivers_push_renewing _ _).symm
    · rfl
  unfold Machine.nativeReturn
  rw [cuts.flags, cuts.operandMark, receivers, cuts.pop]
  rfl

theorem finishNative (cuts : Cuts this open? frame frame' machine) (construct : Bool)
    (result : CellId) :
    Pairs this open? id (Machine.finishNative construct result)
      (Machine.finishNative construct result) machine := by
  unfold Pairs
  rw [finishNative_of_some construct result cuts.saved,
    finishNative_of_some construct result cuts.savedNew, cuts.nativeReturn]
  rfl

end Cuts

theorem shrink_of_size_le {Value : Type} {values : Array Value} {size : Nat}
    (low : values.size ≤ size) : values.shrink size = values := by
  apply Array.toList_inj.mp
  rw [Array.toList_shrink, List.take_of_length_le (by simpa using low)]

/-- A frame that was saved with all receivers leaves them all, as `Cuts` says. -/
theorem Renewable.cuts_own {lower : Array Frame} {frame : Frame}
    (renewable : Renewable this open? { machine with frames := lower })
    (frames : machine.frames = lower.push frame)
    (mark : frame.receiverMark = machine.receivers.size) :
    Cuts this open? frame
      { frame with receiverMark := (machine.renewing this open?).receivers.size } machine := by
  have saved : (machine.renewing this open?).frames = _ :=
    (congrArg (Disguise.renewing this open?).frames frames).trans
      (renewable.save frame machine.receivers mark)
  refine ⟨?_, ?_, rfl, ?_, ?_, ?_⟩
  · rw [frames, Array.back?_push]
  · rw [saved, Array.back?_push]
    rfl
  · rw [saved, frames, Array.pop_push, Array.pop_push]
  · rw [mark, shrink_of_size_le (Nat.le_refl _), shrink_of_size_le (Nat.le_refl _)]
    rfl
  · rw [mark, Array.getElem?_size, Array.getElem?_size]

/-- The topmost frame leaves the same receivers, as `Cuts` says, unless it remembers one more only
on the new machine and there are more than it remembers. -/
theorem Renewable.exists_cuts {frame : Frame} (renewable : machine.Renewable this open?)
    (saved : machine.frames.back? = some frame)
    (even : open? = some machine.frames.size → machine.receivers.size ≤ frame.receiverMark) :
    ∃ frame', Cuts this open? frame frame' machine := by
  cases open? with
  | none =>
    have filled : 0 < machine.frames.size := by
      obtain ⟨lower, frames⟩ := Array.back?_eq_some_iff.mp saved
      rw [frames, Array.size_push]
      exact Nat.succ_pos _
    obtain ⟨top, popped⟩ := pop_raisedFrom saved filled
    exact ⟨frame.raised, saved, top, rfl, popped,
      shrink_carried (Nat.zero_le _) (Nat.zero_le _),
      getElem?_carried (Nat.zero_le _) (Nat.zero_le _)⟩
  | some count =>
    obtain ⟨lower, frames⟩ := Array.back?_eq_some_iff.mp saved
    have room := renewable.frames count rfl
    have raised : (machine.renewing this (some count)).frames =
        (raisedBelow count lower).push (if lower.size < count then frame.raised else frame) :=
      (congrArg (raisedBelow count) frames).trans (raisedBelow_push lower frame)
    have popped : (machine.renewing this (some count)).frames.pop =
        raisedBelow count machine.frames.pop := by
      rw [raised, frames, Array.pop_push, Array.pop_push]
    rw [frames, Array.size_push] at room even
    by_cases remembers : lower.size < count
    · rw [if_pos remembers] at raised
      have few := even (congrArg some (by omega))
      refine ⟨frame.raised, saved, by rw [raised, Array.back?_push], rfl, popped, ?_, ?_⟩
      · change machine.receivers.shrink (frame.receiverMark + 1) =
          machine.receivers.shrink frame.receiverMark
        rw [shrink_of_size_le few, shrink_of_size_le (Nat.le_succ_of_le few)]
      · change machine.receivers[frame.receiverMark + 1]? = machine.receivers[frame.receiverMark]?
        rw [Array.getElem?_eq_none few, Array.getElem?_eq_none (Nat.le_succ_of_le few)]
    · rw [if_neg remembers] at raised
      exact ⟨frame, saved, by rw [raised, Array.back?_push], rfl, popped, rfl, rfl⟩

/-! ### Calls -/

/-- What an instruction leaves to do on the new machine. -/
def Flow.renewed (open? : Option Nat) : Flow → Flow
  | .done => .done
  | .suspended activation => .suspended (activation.renewed open?)

/-- An activation that is made now remembers all receivers on both machines. -/
theorem activation_renewing (inner : ∀ count ∈ open?, count < machine.frames.size)
    (waiting : Waiting) :
    (machine.renewing this open?).activation waiting =
      (machine.activation waiting).renewed open? := by
  cases open? with
  | none =>
    unfold activation
    rw [size_frames_renewing, show (machine.renewing this none).receivers.size = _ from
      size_carried]
    rfl
  | some count =>
    have later : ¬ (machine.activation waiting).depth ≤ count := Nat.not_le_of_lt (inner count rfl)
    refine Eq.trans ?_ (if_neg later).symm
    unfold activation
    rw [size_frames_renewing]
    rfl

theorem pairs_activate (renewable : machine.Renewable this open?)
    (inner : ∀ count ∈ open?, count < machine.frames.size) (function : FunctionId)
    (receiver? : Option CellId) (arguments : List CellId) (waiting : Waiting) :
    Pairs this open? (Activation.renewed · open?) (activate function receiver? arguments waiting)
      (activate function receiver? arguments waiting) machine := by
  have entering (given : CellId) : Pairs this open? (Activation.renewed · open?)
      (activate function (some given) arguments waiting)
      (activate function (some given) arguments waiting) machine := by
    obtain ⟨ready, same⟩ := renewable.awaiting given
    unfold Pairs
    rw [activate_some, activate_some, same, overLimit_renewing]
    split
    · exact ⟨_, rfl, like_renewing this open? machine⟩
    · have entered : Pairs this open? (Activation.renewed · open?) (do
          enter function arguments false
          modify fun machine => { machine with current := machine.current + 1 }
          return machine.activation waiting) (do
          enter function arguments false
          modify fun machine => { machine with current := machine.current + 1 }
          return (machine.renewing this open?).activation waiting) (machine.awaiting given) := by
        refine .bind (.of_mirrors (mirrors_enter ready.fits function arguments false))
          fun _ _ _ => .bind (.of_mirrors (.modify _ rfl)) fun _ _ _ => ?_
        rw [activation_renewing inner]
        exact .pure _
      exact entered
  cases receiver? with
  | some given => exact entering given
  | none =>
    have found := receiver_of_attached renewable.attached
    refine .bind (.of_mirrors (mirrors_receiver renewable.fits)) fun given middle ends => ?_
    cases found.symm.trans ends
    exact entering _

/-- `callNative` does the same on both machines, by `Pairs`, if its frame was saved just now. -/
theorem pairs_callNative {lower : Array Frame} {frame : Frame}
    (renewable : Renewable this open? { machine with frames := lower })
    (frames : machine.frames = lower.push frame)
    (mark : frame.receiverMark = machine.receivers.size) (native : Native)
    (arguments : List CellId) (construct : Bool) :
    Pairs this open? (Flow.renewed open?) (callNative native arguments construct)
      (callNative native arguments construct) machine := by
  have higher : lower.size < machine.frames.size := by
    rw [frames, Array.size_push]
    exact Nat.lt_succ_self _
  have whole : machine.Renewable this open? := renewable.mono rfl rfl (Nat.le_of_lt higher)
  refine .bind (.of_mirrors (mirrors_receiver whole.fits)) fun given found receiving => ?_
  have same : machine = found := by
    cases (receiver_of_attached whole.attached).symm.trans receiving
    rfl
  subst same
  have hosting : Pairs this open? (Sum.map id (Activation.renewed · open?))
      (answered native given arguments construct) (answered native given arguments construct)
      machine := by
    refine .bind (.of_mirrors (mirrors_callHost native _ arguments)) fun call middle hosted => ?_
    cases call with
    | value result => exact .pure (Sum.inl result)
    | enter function receiver? passed =>
      have left := callHost_left (leftBy_of_ok hosted)
      have later : middle.Renewable this open? := by
        rw [left]
        exact whole.mono rfl rfl (Nat.le_refl _)
      refine .bind (pairs_activate later (fun count member => ?_) function receiver? passed _)
        fun activation _ _ => .pure (Sum.inr activation)
      rw [left]
      exact Nat.lt_of_le_of_lt (renewable.frames count member) higher
  refine .bind hosting.leavingFrame fun way reached ran => ?_
  cases way with
  | inr activation => exact .pure (Flow.suspended activation)
  | inl result =>
    obtain ⟨call, middle, hosted, continued⟩ := bind_eq_ok.mp (leavingFrame_eq_ok ran)
    cases call with
    | enter function receiver? passed =>
      obtain ⟨_, _, _, returned⟩ := bind_eq_ok.mp continued
      cases returned
    | value value =>
      cases continued
      have left := callHost_left (leftBy_of_ok hosted)
      have cuts : Cuts this open? frame
          { frame with receiverMark := (reached.renewing this open?).receivers.size } reached := by
        have before : Renewable this open? { reached with frames := lower } := by
          rw [left]
          exact renewable.mono rfl rfl (Nat.le_refl _)
        refine before.cuts_own ?_ ?_
        · rw [left]
          exact frames
        · rw [left]
          exact mark
      exact .bind (cuts.finishNative construct result) fun _ _ _ => .pure Flow.done

theorem Like.popped {other : Machine} (like : machine.Like other) :
    Like { machine with frames := machine.frames.pop }
      { other with frames := other.frames.pop } := by
  refine ⟨?_, ?_⟩
  · rw [like.rest]
  · rw [Array.map_pop, Array.map_pop, like.frames]

theorem pairs_call (renewable : machine.Renewable this open?) (count : Nat) :
    Pairs this open? (Flow.renewed open?) (call count) (call count) machine := by
  rcases Nat.lt_or_ge count machine.operands.size with room | short
  · obtain ⟨callee, known, equal⟩ := call_of_room room
    obtain ⟨other, known', equal'⟩ :=
      call_of_room (show count < (machine.renewing this open?).operands.size from room)
    cases known.symm.trans known'
    obtain ⟨called, same⟩ := renewable.calling count
    have saved : (machine.calling count).frames.back? = some (machine.callFrame count) :=
      Array.back?_push
    obtain ⟨frame', saved'⟩ : ∃ frame',
        ((machine.calling count).renewing this open?).frames.back? = some frame' := by
      rw [← same]
      exact ⟨_, Array.back?_push⟩
    have like := like_renewing this open? (machine.calling count)
    unfold Pairs
    rw [equal, equal', same]
    cases exceeded : (machine.calling count).overLimit with
    | true =>
      rw [dispatch_of_overLimit exceeded saved,
        dispatch_of_overLimit ((overLimit_renewing ..).trans exceeded) saved']
      exact ⟨_, rfl, like.popped⟩
    | false =>
      have under := (overLimit_renewing this open? (machine.calling count)).trans exceeded
      cases callable : ((machine.calling count).heap.content callee).callable? with
      | none =>
        rw [dispatch_of_uncallable exceeded saved callable,
          dispatch_of_uncallable under saved' (by exact callable)]
        exact ⟨_, rfl, like.popped⟩
      | some function =>
        rw [dispatch_of_callable exceeded callable,
          dispatch_of_callable under (by exact callable)]
        cases kind : ((machine.calling count).heap.function function).native with
        | some native =>
          rw [show (((machine.calling count).renewing this open?).heap.function function).native = _
            from kind]
          have calling : Pairs this open? (Flow.renewed open?) _ _ (machine.ready count function) :=
            pairs_callNative (by exact renewable.mono rfl rfl (Nat.le_refl _)) rfl rfl native
              (machine.argumentCells count) machine.flags.construct
          exact calling
        | none =>
          rw [show (((machine.calling count).renewing this open?).heap.function function).native = _
            from kind]
          have ready : (machine.ready count function).Renewable this open? :=
            called.mono rfl rfl (Nat.le_refl _)
          have entering : Pairs this open? (Flow.renewed open?) (do
              enter function (machine.argumentCells count) machine.flags.construct
              return Flow.done) (do
              enter function (machine.argumentCells count) machine.flags.construct
              return Flow.done) (machine.ready count function) :=
            .bind (.of_mirrors (mirrors_enter ready.fits ..)) fun _ _ _ => .pure Flow.done
          exact entering
  · -- Without enough operands nothing is called.
    refine .bind (.of_mirrors (mirrors_popOnto count [])) fun arguments taken popping =>
      .bind (.of_mirrors mirrors_pop) fun callee popped pops => ?_
    exact absurd (Configuration.lt_of_popped popping pops) (Nat.not_lt_of_le short)

/-! ### Instructions -/

theorem pairs_ret (renewable : machine.Renewable this open?)
    (cuts : ∀ frame, machine.frames.back? = some frame →
      ∃ frame', Cuts this open? frame frame' machine) :
    Pairs this open? id ret ret machine := by
  cases topmost : machine.operands.back? with
  | none =>
    have fails : ret machine = _ := bind_of_error (pop_of_none topmost)
    have fails' : ret (machine.renewing this open?) = _ :=
      bind_of_error (pop_of_none (by exact topmost))
    unfold Pairs
    rw [fails, fails']
    exact ⟨_, rfl, like_renewing this open? machine⟩
  | some operand =>
    cases saved : machine.frames.back? with
    | some frame =>
      obtain ⟨frame', cuts⟩ := cuts frame saved
      unfold Pairs
      rw [ret_of_some renewable.attached topmost saved,
        ret_of_some (by exact renewable.attached) (by exact topmost) cuts.savedNew,
        cuts.scriptReturn renewable]
      rfl
    | none =>
      have like := like_renewing this open? { machine with operands := machine.operands.pop }
      have none : (machine.renewing this open?).frames.back? = none := by
        have top := (like_renewing this open? machine).back?
        rw [saved, Option.map_none, Option.map_eq_none_iff] at top
        exact top
      unfold Pairs ret
      rw [bind_of_ok (pop_of_some topmost), bind_of_ok (pop_of_some (by exact topmost)), get_bind,
        get_bind]
      dsimp only
      rw [saved, none]
      exact ⟨_, rfl, like⟩

/-- Taking a receiver `Mirrors` the disguise, unless it is the one more that is taken. -/
theorem mirrors_popReceiver_renewing (found : open? = none → machine.receivers ≠ #[]) :
    Mirrors (.renewing this open?) popReceiver machine := by
  cases open? with
  | none => exact mirrors_popReceiver_carrying (Array.size_pos_iff.mpr (found rfl))
  | some count =>
    refine .get rfl ?_
    split
    · exact .bind (mirrors_pushCell _) fun _ _ _ => .modify _ rfl
    · split
      · exact mirrors_pushCell _
      · exact .throw _

theorem pairs_execute {instruction : Instruction CellId} (renewable : machine.Renewable this open?)
    (found : instruction.opcode = .pushthis → open? = none → machine.receivers ≠ #[])
    (cuts : instruction.opcode = .ret → ∀ frame, machine.frames.back? = some frame →
      ∃ frame', Cuts this open? frame frame' machine) :
    Pairs this open? (Flow.renewed open?) (execute instruction) (execute instruction) machine := by
  by_cases isCall : instruction.opcode = .call
  · unfold execute
    rw [isCall]
    refine .bind (.of_mirrors (mirrors_countOf _)) fun count counted counting => ?_
    obtain ⟨_, _, rfl⟩ := Configuration.countOf_eq_ok counting
    exact pairs_call renewable count
  · have plain : Pairs this open? id (executePlain instruction) (executePlain instruction)
        machine := by
      by_cases returns : instruction.opcode = .ret
      · rw [executePlain_of_ret returns]
        exact pairs_ret renewable (cuts returns)
      · exact .of_mirrors (mirrors_executePlain renewable.fits returns fun isTake =>
          mirrors_popReceiver_renewing (found isTake))
    rw [execute_of_noCall isCall]
    exact .bind plain fun _ _ _ => .pure Flow.done

/-! ### Moves -/

/-- What a move leads to on the new machine. -/
def Progress.renewed (open? : Option Nat) : Progress → Progress
  | .running pending => .running (pending.map (Activation.renewed · open?))
  | .finished result => .finished result

/-- An activation on the new machine is the same but for the receivers that it remembers. -/
theorem renewed_cases (activation : Activation) (open? : Option Nat) :
    activation.renewed open? = activation.raised ∨ activation.renewed open? = activation := by
  unfold Activation.renewed
  split
  · exact .inl rfl
  · split
    · exact .inl rfl
    · exact .inr rfl

theorem depth_renewed (activation : Activation) (open? : Option Nat) :
    (activation.renewed open?).depth = activation.depth := by
  rcases renewed_cases activation open? with same | same
  · rw [same]
    rfl
  · rw [same]

theorem waiting_renewed (activation : Activation) (open? : Option Nat) :
    (activation.renewed open?).waiting = activation.waiting := by
  rcases renewed_cases activation open? with same | same
  · rw [same]
    rfl
  · rw [same]

theorem pc_renewed (activation : Activation) (open? : Option Nat) :
    (activation.renewed open?).pc = activation.pc := by
  rcases renewed_cases activation open? with same | same
  · rw [same]
    rfl
  · rw [same]

theorem map_waiting_renewed (pending : List Activation) (open? : Option Nat) :
    (pending.map (Activation.renewed · open?)).map Activation.waiting =
      pending.map Activation.waiting := by
  rw [List.map_map]
  exact List.map_congr_left fun activation _ => waiting_renewed activation open?

/-- The result of an activation is taken alike by `conclude`, unless the activation remembers one
receiver more only on the new machine and its receivers are all there. -/
theorem pairs_conclude {activation : Activation} {operand : Operand}
    (renewable : machine.Renewable this open?) (reached : machine.frames.size = activation.depth)
    (topmost : machine.operands.back? = some operand)
    (even : open? = some machine.frames.size →
      machine.receivers.size < activation.receiverMark) :
    Pairs this open? id (conclude activation) (conclude (activation.renewed open?)) machine := by
  unfold Pairs
  rw [conclude_of_some topmost, conclude_of_some (by exact topmost)]
  by_cases consumed : machine.receivers.size < activation.receiverMark
  · have consumed' : (machine.renewing this open?).receivers.size <
        (activation.renewed open?).receiverMark := by
      cases open? with
      | none =>
        rw [show (machine.renewing this none).receivers.size = _ from size_carried]
        exact Nat.succ_lt_succ consumed
      | some count =>
        unfold Activation.renewed
        dsimp only
        split
        · exact Nat.lt_succ_of_lt consumed
        · exact consumed
    rw [if_pos consumed, if_pos consumed', pc_renewed]
    exact ⟨_, rfl, like_renewing this open?
      { machine with current := activation.pc, operands := machine.operands.pop }⟩
  · have kept : ¬ (machine.renewing this open?).receivers.size <
          (activation.renewed open?).receiverMark ∧
        (machine.renewing this open?).receivers.shrink (activation.renewed open?).receiverMark =
          (Disguise.renewing this open?).receivers
            (machine.receivers.shrink activation.receiverMark) := by
      cases open? with
      | none =>
        refine ⟨?_, shrink_carried (Nat.zero_le _) (Nat.zero_le _)⟩
        rw [show (machine.renewing this none).receivers.size = _ from size_carried]
        exact fun lower => consumed (Nat.lt_of_succ_lt_succ lower)
      | some count =>
        have later : ¬ activation.depth ≤ count := by
          intro low
          have room := renewable.frames count rfl
          exact consumed (even (congrArg some (by omega)))
        unfold Activation.renewed
        dsimp only
        rw [if_neg later]
        exact ⟨consumed, rfl⟩
    rw [if_neg consumed, if_neg kept.1]
    unfold concluded
    rw [kept.2, pc_renewed]
    rfl

/-- The end of a native call whose script function has returned. -/
theorem pairs_resume {activation : Activation} {pending : List Activation} {construct : Bool}
    {operand : Operand} {frame : Frame} (renewable : machine.Renewable this open?)
    (reached : machine.frames.size = activation.depth)
    (waits : activation.waiting = .call construct)
    (topmost : machine.operands.back? = some operand)
    (saved : machine.frames.back? = some frame)
    (even : open? = some machine.frames.size →
      machine.receivers.size < activation.receiverMark) :
    Pairs this open? (Progress.renewed open?) (resume activation pending)
      (resume (activation.renewed open?) (pending.map (Activation.renewed · open?))) machine := by
  refine .bind (pairs_conclude renewable reached topmost even) fun result concluded ends => ?_
  obtain ⟨_, _, enough, _, rfl⟩ := Configuration.conclude_eq_ok ends
  have later : (machine.concluded activation).Renewable this open? :=
    renewable.mono rfl rfl (Nat.le_refl _)
  obtain ⟨_, cuts⟩ := later.exists_cuts (by exact saved) fun all =>
    absurd enough (Nat.not_le_of_lt (even all))
  rw [waiting_renewed, waits]
  exact .bind (cuts.finishNative construct result) fun _ _ _ =>
    .bind (.of_mirrors mirrors_stepOver) fun _ _ _ => .pure (Progress.running pending)

/-- The `nextMove` is the same on both machines. -/
theorem nextMove_renewing (this : CellId) (open? : Option Nat) (machine : Machine)
    (pending : List Activation) :
    (machine.renewing this open?).nextMove (pending.map (Activation.renewed · open?)) =
      match machine.nextMove pending with
      | .resume activation rest =>
        .resume (activation.renewed open?) (rest.map (Activation.renewed · open?))
      | move => move := by
  cases pending with
  | nil =>
    change (if machine.current = machine.stop then Move.finish else .execute) =
      match (if machine.current = machine.stop then Move.finish else .execute) with
      | .resume activation rest => _
      | move => move
    split <;> rfl
  | cons activation rest =>
    rw [List.map_cons, nextMove, nextMove, size_frames_renewing, depth_renewed]
    split
    · change (if machine.current = machine.stop then Move.leave else .execute) =
        match (if machine.current = machine.stop then Move.leave else .execute) with
        | .resume activation rest => _
        | move => move
      split <;> rfl
    · rfl

theorem pairs_unwind (fault : ScriptFault) (pending : List Activation) (machine : Machine) :
    Pairs this open? (Progress.renewed open?) (unwind fault pending)
      (unwind fault (pending.map (Activation.renewed · open?))) machine := by
  obtain ⟨_, _, left, fails, fails', like⟩ :=
    (like_renewing this open? machine).unwind fault (map_waiting_renewed pending open?)
  unfold Pairs
  rw [fails, fails']
  exact ⟨left, rfl, like⟩

theorem pairs_executeNext {pending : List Activation}
    (executes : ∀ instruction, machine.instruction? = some instruction →
      Pairs this open? (Flow.renewed open?) (execute instruction) (execute instruction) machine) :
    Pairs this open? (Progress.renewed open?) (executeNext pending)
      (executeNext (pending.map (Activation.renewed · open?))) machine := by
  unfold Pairs
  cases present : machine.instruction? with
  | none =>
    have fails (pending : List Activation) (machine : Machine)
        (none : machine.instruction? = none) :
        executeNext pending machine =
          .error (.malformed machine.place (.counterRange machine.code.size)) machine := by
      refine (get_bind _ _).trans ?_
      rw [none]
      rfl
    rw [fails _ _ present, fails _ _ (by exact present)]
    exact ⟨_, rfl, like_renewing this open? machine⟩
  | some instruction =>
    have pairs := executes instruction present
    cases ends : execute instruction machine with
    | ok flow middle =>
      have ends' := pairs.of_ok ends
      cases flow with
      | done =>
        rw [Configuration.executeNext_of_done present ends,
          Configuration.executeNext_of_done (by exact present) ends']
        exact congrArg (EStateM.Result.ok _) (stepped_disguised _ middle)
      | suspended activation =>
        rw [Configuration.executeNext_of_suspended present ends,
          Configuration.executeNext_of_suspended (by exact present) ends']
        rfl
    | error fault middle =>
      obtain ⟨left, ends', like⟩ := pairs.of_error ends
      cases fault with
      | script fault =>
        have current : left.current = middle.current := by rw [like.rest]
        rw [Configuration.executeNext_of_script present ends,
          Configuration.executeNext_of_script (by exact present) ends', current]
        obtain ⟨_, _, last, fails, fails', like⟩ :=
          like.unwind (fault.passing ⟨middle.current, instruction.opcode⟩)
            (map_waiting_renewed pending open?)
        rw [fails, fails']
        exact ⟨last, rfl, like⟩
      | malformed | breakdown =>
        rw [Configuration.executeNext_of_fault present ends fun _ => Fault.noConfusion,
          Configuration.executeNext_of_fault (by exact present) ends' fun _ => Fault.noConfusion]
        exact ⟨left, rfl, like⟩

end Machine

end ScriptEngine
