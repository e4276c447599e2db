/-
This file proves what a reset leaves of the runs of a machine. Nothing is left but memory, the
global scope and what was printed: the machine is a new one, only that a new one starts with the
receiver of the scope store and this one with no receiver. Move by move the two run alike, as long
as no call is left on which the difference shows; a condition that can be computed along the run
says so. Where it fails the two machines can come to different results, and the new one can break
down where the other goes on.
-/

import ScriptEngine.Proofs.Renewal

namespace ScriptEngine

open Machine

/-! ### Taking a receiver -/

namespace Machine

variable {machine : Machine} {instruction : Instruction CellId}

theorem mem_code_of_instruction? (present : machine.instruction? = some instruction) :
    instruction ∈ machine.code := by
  unfold instruction? instructionAt? at present
  split at present
  · exact Array.mem_of_getElem? present
  · cases present

/-- Once the new machine has taken the receiver that it has more, both have the same receivers, and
all its frames remember one more. -/
theorem pop_renewing {this : CellId} {operands : Array Operand} (empty : machine.receivers = #[]) :
    ({ machine.renewing this none with
        operands, receivers := (machine.renewing this none).receivers.pop } : Machine) =
      Machine.renewing this (some machine.frames.size) { machine with operands } := by
  have receivers : (carried 0 this machine.receivers).pop = machine.receivers := by
    rw [empty]
    rfl
  unfold renewing disguised Disguise.renewing Disguise.carrying
  dsimp only [id]
  rw [receivers, raisedBelow_size]

end Machine

/-! ### Runs that leave calls evenly -/

namespace Configuration

variable {this : CellId} {open? : Option Nat} {configuration : Configuration}

/-- Whether the next move executes an instruction with that opcode. -/
def isAboutTo (opcode : Opcode) (configuration : Configuration) : Bool :=
  match configuration.machine.nextMove configuration.pending with
  | .execute => configuration.machine.instruction?.any (·.opcode = opcode)
  | _ => false

theorem isAboutTo_iff {opcode : Opcode} :
    configuration.isAboutTo opcode = true ↔ configuration.Executes ∧
      ∃ instruction, configuration.machine.instruction? = some instruction ∧
        instruction.opcode = opcode := by
  unfold isAboutTo Executes
  cases configuration.machine.nextMove configuration.pending with
  | execute =>
    dsimp only
    rw [Option.any_eq_true]
    simp only [decide_eq_true_eq, true_and]
  | finish | leave | resume => simp

instance (configuration : Configuration) : Decidable configuration.TakesNone :=
  decidable_of_iff
    (configuration.machine.receivers = #[] ∧ configuration.isAboutTo .pushthis = true) (by
      rw [isAboutTo_iff]
      exact and_left_comm)

/-- How many of the calls that were open when a receiver was first taken where there was none are
still open, if one was taken. -/
def stillOpen (open? : Option Nat) (configuration : Configuration) : Option Nat :=
  match open? with
  | some count => some (min count configuration.machine.frames.size)
  | none => if configuration.TakesNone then some configuration.machine.frames.size else none

/-- Whether the next move leaves a call with more receivers than it was made with, or finds that
a function which the host has entered has left the receivers of its caller. -/
def leavesMore (configuration : Configuration) : Bool :=
  match configuration.machine.nextMove configuration.pending with
  | .execute =>
    configuration.isAboutTo .ret && configuration.machine.frames.back?.any
      (·.receiverMark < configuration.machine.receivers.size)
  | .resume activation _ => activation.receiverMark ≤ configuration.machine.receivers.size
  | .finish | .leave => false

theorem le_receiverMark_of_ret {frame : Frame} (few : configuration.leavesMore = false)
    (returns : configuration.isAboutTo .ret = true)
    (saved : configuration.machine.frames.back? = some frame) :
    configuration.machine.receivers.size ≤ frame.receiverMark := by
  unfold leavesMore at few
  rw [(isAboutTo_iff.mp returns).1, returns, saved] at few
  simpa using few

theorem lt_receiverMark_of_resume {activation : Activation} {rest : List Activation}
    (few : configuration.leavesMore = false)
    (move : configuration.machine.nextMove configuration.pending = .resume activation rest) :
    configuration.machine.receivers.size < activation.receiverMark := by
  unfold leavesMore at few
  rw [move] at few
  simpa using few

/-- Whether no call that is open when a receiver is first taken where there is none is left with
more receivers than it was made with, in so many moves. -/
def leavesEvenly : (fuel : Nat) → (open? : Option Nat) → Configuration → Bool
  | 0, _, _ => true
  | fuel + 1, open?, configuration =>
    let open? := configuration.stillOpen open?
    (open? ≠ some configuration.machine.frames.size || !configuration.leavesMore) &&
      match configuration.next? with
      | some next => leavesEvenly fuel open? next
      | none => true

theorem not_leavesMore_of_leavesEvenly {fuel : Nat}
    (even : configuration.leavesEvenly (fuel + 1) open? = true)
    (all : configuration.stillOpen open? = some configuration.machine.frames.size) :
    configuration.leavesMore = false := by
  unfold leavesEvenly at even
  simpa [all] using (Bool.and_eq_true_iff.mp even).1

theorem leavesEvenly_of_moves {fuel : Nat} {after : Configuration}
    (moves : configuration.Moves after)
    (even : configuration.leavesEvenly (fuel + 1) open? = true) :
    after.leavesEvenly fuel (configuration.stillOpen open?) = true := by
  have next : configuration.next? = some after := by
    unfold next?
    rw [moves]
  unfold leavesEvenly at even
  have rest := (Bool.and_eq_true_iff.mp even).2
  rw [next] at rest
  exact rest

/-- A run of a program in which nothing takes a receiver `leavesEvenly` all calls. -/
theorem leavesEvenly_of_noTake
    (absent : ∀ instruction ∈ configuration.machine.code, instruction.opcode ≠ .pushthis)
    (fuel : Nat) : configuration.leavesEvenly fuel none = true := by
  induction fuel generalizing configuration with
  | zero => rfl
  | succ fuel inductionHypothesis =>
    have found : ¬ configuration.TakesNone := by
      rintro ⟨_, _, instruction, present, isTake⟩
      exact absent instruction (mem_code_of_instruction? present) isTake
    have open? : configuration.stillOpen none = none := if_neg found
    unfold leavesEvenly
    dsimp only
    rw [open?]
    cases next : configuration.next? with
    | none => rfl
    | some after =>
      have moves : configuration.Moves after := by
        have taken := moves_of_next? (Option.isSome_iff_exists.mpr ⟨after, next⟩)
        rwa [next] at taken
      have code : after.machine.code = configuration.machine.code :=
        congrArg Setting.code moves.setting
      exact inductionHypothesis (by rwa [code])

/-! ### One move of both machines -/

/-- The configuration on the new machine. -/
def renewing (this : CellId) (open? : Option Nat) (configuration : Configuration) : Configuration :=
  ⟨configuration.machine.renewing this open?,
    configuration.pending.map (Activation.renewed · open?)⟩

/-- Calls that are over do not count. -/
theorem Orderly.renewing_min (orderly : configuration.Orderly) (count : Nat) :
    configuration.renewing this (some (min count configuration.machine.frames.size)) =
      configuration.renewing this (some count) := by
  unfold renewing Machine.renewing Machine.disguised Disguise.renewing
  congr 1
  · dsimp only
    rw [raisedBelow_min]
  · refine List.map_congr_left fun activation member => ?_
    have lower := orderly.depth_le activation member
    unfold Activation.renewed
    simp only [Nat.le_min, lower, and_true]

/-- A function that the host has entered and that has returned was entered by a call, and the frame
of that call and the result of the function are there. -/
theorem Orderly.of_resume {activation : Activation} {rest : List Activation}
    (orderly : configuration.Orderly)
    (move : configuration.machine.nextMove configuration.pending = .resume activation rest) :
    configuration.machine.frames.size = activation.depth ∧
      (∃ construct, activation.waiting = .call construct) ∧
      (∃ operand, configuration.machine.operands.back? = some operand) ∧
      ∃ frame, configuration.machine.frames.back? = some frame := by
  obtain ⟨machine, pending⟩ := configuration
  obtain ⟨rfl, high⟩ := nextMove_eq_resume move
  have member : activation ∈ activation :: rest := List.mem_cons_self ..
  rcases orderly.innermost activation rfl with lower | ⟨reached, _, filled⟩
  · exact absurd lower (Nat.not_lt_of_le high)
  have framed : machine.frames ≠ #[] := by
    rw [← Array.size_pos_iff, show machine.frames.size = _ from reached]
    exact orderly.positive activation member
  refine ⟨reached, ?_, ?_, ?_⟩
  · cases waits : activation.waiting with
    | host => exact absurd waits (orderly.waiting activation member)
    | call construct => exact ⟨construct, rfl⟩
  · exact Option.ne_none_iff_exists'.mp (mt Array.back?_eq_none_iff.mp filled)
  · exact Option.ne_none_iff_exists'.mp (mt Array.back?_eq_none_iff.mp framed)

theorem pairs_advance (orderly : configuration.Orderly)
    (renewable : configuration.machine.Renewable this open?)
    (found : open? = none → ¬ configuration.TakesNone)
    (even : open? = some configuration.machine.frames.size → configuration.leavesMore = false) :
    Pairs this open? (Progress.renewed open?) (advance configuration.pending)
      (advance (configuration.renewing this open?).pending) configuration.machine := by
  obtain ⟨machine, pending⟩ := configuration
  have same := nextMove_renewing this open? machine pending
  have left : advance pending machine = _ := get_bind _ _
  have right : advance (renewing this open? ⟨machine, pending⟩).pending
    (machine.renewing this open?) = _ := get_bind _ _
  unfold Pairs
  rw [left, right]
  dsimp only [renewing]
  rw [same]
  cases move : machine.nextMove pending with
  | finish => exact rfl
  | leave => exact pairs_unwind _ pending machine
  | resume activation rest =>
    obtain ⟨reached, ⟨construct, waits⟩, ⟨operand, topmost⟩, frame, saved⟩ := orderly.of_resume move
    exact pairs_resume renewable reached waits topmost saved fun all =>
      lt_receiverMark_of_resume (even all) move
  | execute =>
    refine pairs_executeNext fun instruction present => pairs_execute renewable ?_ ?_
    · exact fun takes isNone empty => found isNone ⟨move, empty, instruction, present, takes⟩
    · intro returns frame saved
      have about : isAboutTo .ret ⟨machine, pending⟩ = true :=
        isAboutTo_iff.mpr ⟨move, instruction, present, returns⟩
      exact renewable.exists_cuts saved fun all => le_receiverMark_of_ret (even all) about saved

/-- A receiver is taken where there is none, `TakesNone`: the new machine takes the one more that it
has, and from there on the calls that are open remember one that is not there any more. -/
theorem TakesNone.advance_renewing (takes : configuration.TakesNone)
    (orderly : configuration.Orderly) (renewable : configuration.machine.Renewable this none) :
    Agrees this (some configuration.machine.frames.size)
      (Progress.renewed (some configuration.machine.frames.size))
      (advance configuration.pending configuration.machine)
      (advance (configuration.renewing this none).pending
        (configuration.renewing this none).machine) := by
  obtain ⟨machine, pending⟩ := configuration
  obtain ⟨executes, empty, instruction, present, isTake⟩ := takes
  have executes' : (renewing this none ⟨machine, pending⟩).Executes := by
    have same := nextMove_renewing this none machine pending
    rw [show machine.nextMove pending = .execute from executes] at same
    exact same
  have topmost : machine.receivers.back? = none := by
    rw [show machine.receivers = #[] from empty]
    rfl
  have topmost' : (machine.renewing this none).receivers.back? = some this := by
    change (carried 0 this machine.receivers).back? = some this
    rw [show machine.receivers = #[] from empty]
    rfl
  have marked : pending.map (Activation.renewed · none) =
      pending.map (Activation.renewed · (some machine.frames.size)) :=
    List.map_congr_left fun activation member =>
      (if_pos (orderly.depth_le activation member)).symm
  have advanced : advance pending machine = _ :=
    executes.advance_eq.trans
      (executeNext_of_done present (execute_takes_of_none isTake topmost renewable.attached))
  have advanced' : advance (pending.map (Activation.renewed · none))
      (machine.renewing this none) = _ :=
    executes'.advance_eq.trans
      (executeNext_of_done (by exact present) (execute_takes_of_some isTake topmost'))
  dsimp only [renewing]
  rw [advanced, advanced']
  refine congrArg₂ EStateM.Result.ok (congrArg Progress.running marked) ?_
  rw [show machine.scopes.receiver = this from renewable.receiver]
  exact (congrArg Machine.stepped (pop_renewing empty)).trans (stepped_disguised _ _)

/-- One move of both machines by `advance`: they fail alike, or they go on alike with the calls that
are still open. -/
theorem advance_renewing (orderly : configuration.Orderly)
    (usable : configuration.machine.attached = true)
    (receiver : configuration.machine.scopes.receiver = this)
    (even : configuration.stillOpen open? = some configuration.machine.frames.size →
      configuration.leavesMore = false) :
    Agrees this (configuration.stillOpen open?) (Progress.renewed (configuration.stillOpen open?))
      (advance configuration.pending configuration.machine)
      (advance (configuration.renewing this open?).pending
        (configuration.renewing this open?).machine) := by
  have renewable {now : Option Nat}
      (frames : ∀ count ∈ now, count ≤ configuration.machine.frames.size) :
      configuration.machine.Renewable this now := ⟨usable, receiver, frames⟩
  cases open? with
  | some count =>
    rw [← orderly.renewing_min]
    refine pairs_advance orderly (renewable ?_) (fun impossible => by cases impossible) even
    rintro _ ⟨⟩
    exact Nat.min_le_right ..
  | none =>
    unfold stillOpen at even ⊢
    dsimp only at even ⊢
    split at even
    · rename_i takes
      rw [if_pos takes]
      exact takes.advance_renewing orderly (renewable (by simp))
    · rename_i found
      rw [if_neg found]
      exact pairs_advance orderly (renewable (by simp)) (fun _ => found) even

end Configuration

/-! ### Runs of both machines -/

namespace Machine

open ScriptEngine.Configuration

variable {View : Type} {observe : Machine → View → View} {this : CellId} {machine : Machine}

/-- An observer who looks neither at the receivers nor at how many of them frames remember. -/
def Indifferent (observe : Machine → View → View) : Prop :=
  ∀ {machine other : Machine}, machine.Like other →
    ∀ view, observe other view = observe machine view

theorem Like.stopped {other : Machine} (like : machine.Like other) :
    Like { machine with current := machine.stop } { other with current := other.stop } := by
  refine ⟨?_, like.frames⟩
  rw [like.rest]

theorem Like.takeResult {other : Machine} (like : machine.Like other) :
    other.takeResult.1 = machine.takeResult.1 ∧ machine.takeResult.2.Like other.takeResult.2 := by
  rw [like.rest]
  unfold Machine.takeResult
  dsimp only
  cases machine.operands.back? with
  | some operand => exact ⟨rfl, rfl, like.frames⟩
  | none => exact ⟨rfl, rfl, like.frames⟩

theorem indifferent_observe (traced : Bool) : Indifferent (Session.observe traced) := by
  intro machine other like view
  unfold Session.observe
  rw [like.rest]
  rfl

/-- Two runs end in the same way, with the same sight, on machines that are `Like` each other. -/
structure EndsLike (ended other : Outcome × View × Machine) : Prop where
  outcome : other.1 = ended.1
  shown : other.2.1 = ended.2.1
  like : ended.2.2.Like other.2.2

/-- An observer who is `Indifferent` sees the same on both machines. -/
theorem shown_renewing (indifferent : Indifferent observe) (this : CellId) (open? : Option Nat)
    (configuration : Configuration) (view : View) :
    (configuration.renewing this open?).shown observe view =
      configuration.shown observe view := by
  have about : (configuration.renewing this open?).machine.aboutToExecute
      (configuration.renewing this open?).pending =
      configuration.machine.aboutToExecute configuration.pending := by
    unfold aboutToExecute Configuration.renewing
    dsimp only
    rw [nextMove_renewing]
    cases configuration.machine.nextMove configuration.pending <;> rfl
  unfold shown
  rw [about]
  split
  · exact indifferent (like_renewing this open? configuration.machine) view
  · rfl

/-- A `loop` on the new machine `EndsLike` the one on the machine that was reset. -/
theorem endsLike_loop (indifferent : Indifferent observe) {fuel : Nat} {open? : Option Nat}
    {pending : List Activation} (view : View) (orderly : Orderly ⟨machine, pending⟩)
    (usable : machine.attached = true) (receiver : machine.scopes.receiver = this)
    (even : leavesEvenly fuel open? ⟨machine, pending⟩ = true) :
    EndsLike (loop observe fuel pending view machine)
      (loop observe fuel (pending.map (Activation.renewed · open?)) view
        (machine.renewing this open?)) := by
  induction fuel generalizing machine pending open? view with
  | zero => exact ⟨rfl, rfl, like_renewing this open? machine⟩
  | succ fuel inductionHypothesis =>
    have agrees := advance_renewing orderly usable receiver
      (not_leavesMore_of_leavesEvenly even)
    have sight := shown_renewing indifferent this open? ⟨machine, pending⟩ view
    dsimp only [Configuration.renewing] at agrees sight
    have acts := acts_advance pending machine
    unfold Leads at acts
    rw [loop_succ, loop_succ, sight]
    cases advanced : advance pending machine with
    | ok progress after =>
      rw [advanced] at agrees
      unfold Agrees at agrees
      rw [agrees]
      cases progress with
      | finished result => exact ⟨rfl, rfl, like_renewing this _ after⟩
      | running later =>
        rw [leftBy_of_ok advanced] at acts
        have moves : Moves ⟨machine, pending⟩ ⟨after, later⟩ := advanced
        exact inductionHypothesis _ (moves.orderly orderly)
          ((congrArg Setting.attached (setting_of_acts acts)).trans usable)
          ((receiver_of_acts acts).trans receiver) (leavesEvenly_of_moves moves even)
    | error fault after =>
      rw [advanced] at agrees
      obtain ⟨left, fails, like⟩ := agrees
      rw [fails]
      exact ⟨rfl, rfl, like⟩

theorem endsLike_run (indifferent : Indifferent observe) {fuel : Nat} (view : View)
    (usable : machine.attached = true) (receiver : machine.scopes.receiver = this)
    (even : leavesEvenly fuel none ⟨machine, []⟩ = true) :
    EndsLike (run observe fuel view machine)
      (run observe fuel view (machine.renewing this none)) := by
  have looped := endsLike_loop indifferent view (orderly_start machine) usable receiver even
  unfold run
  rcases ends : loop observe fuel [] view machine with ⟨outcome, shown, final⟩
  rcases ends' : loop observe fuel [] view (machine.renewing this none) with
    ⟨outcome', shown', final'⟩
  rw [ends, List.map_nil, ends'] at looped
  obtain ⟨same, sight, like⟩ := looped
  cases same
  cases sight
  cases outcome with
  | finished result => exact ⟨rfl, rfl, like⟩
  | outOfFuel => exact ⟨rfl, rfl, like⟩
  | failed fault =>
    cases fault with
    | malformed | breakdown => exact ⟨rfl, rfl, like⟩
    | script fault =>
      dsimp only
      split
      · exact ⟨rfl, rfl, like.stopped⟩
      · exact ⟨rfl, rfl, like⟩

/-! ### Machines that are used again -/

/-- The machines that come of a new one by using it: names are defined, the scope store is attached
again, something is loaded, it is run as far as fuel goes, its result is taken, and it is reset, in
any order. -/
inductive Used : Machine → Prop where
  | new (limit : Int64) : Used (new limit)
  | define {machine : Machine} (used : Used machine) (name : Text) (cell : Cell) :
    Used (machine.defineCell name cell)
  | defineNative {machine : Machine} (used : Used machine) (name : Text)
    (constructs : ConstructKind) (native : Native) :
    Used (machine.defineNative name constructs native)
  | attach {machine : Machine} (used : Used machine) : Used machine.attach
  | load {machine : Machine} {load : Machine → Machine} (used : Used machine)
    (loads : Loads load) : Used (load machine)
  | run {View : Type} {machine : Machine} (used : Used machine) (observe : Machine → View → View)
    (fuel : Nat) (view : View) : Used (run observe fuel view machine).2.2
  | takeResult {machine : Machine} (used : Used machine) : Used machine.takeResult.2
  | reset {machine : Machine} (used : Used machine) : Used machine.reset

/-- A machine that was `Used` has its scope store, and no more scopes than frames. -/
theorem Used.inStep (used : machine.Used) : machine.attached = true ∧ machine.InStep false 0 := by
  induction used with
  | new limit => exact ⟨rfl, Nat.le_refl 0, fun _ => rfl⟩
  | define used name cell inductionHypothesis =>
    exact ⟨inductionHypothesis.1, inductionHypothesis.2.congr rfl rfl⟩
  | defineNative used name constructs native inductionHypothesis =>
    exact ⟨inductionHypothesis.1, inductionHypothesis.2.congr rfl rfl⟩
  | attach used inductionHypothesis => exact ⟨rfl, inductionHypothesis.2.congr rfl rfl⟩
  | @load machine load used loads inductionHypothesis =>
    obtain ⟨heap, placement, loaded⟩ := loads machine
    rw [loaded]
    exact ⟨inductionHypothesis.1, inductionHypothesis.2.congr rfl rfl⟩
  | run used observe fuel view inductionHypothesis =>
    obtain ⟨attached, inStep, _⟩ := run_inStep inductionHypothesis.1 inductionHypothesis.2
      (show Machine.run observe fuel view _ = (_, _, _) from rfl)
    exact ⟨attached, inStep⟩
  | takeResult used inductionHypothesis =>
    obtain ⟨attached, inStep⟩ := inductionHypothesis
    unfold Machine.takeResult
    split
    · exact ⟨attached, inStep.congr rfl rfl⟩
    · exact ⟨attached, inStep.congr rfl rfl⟩
  | reset used inductionHypothesis =>
    obtain ⟨attached, inStep⟩ := inductionHypothesis
    exact ⟨attached, (blank_reset attached inStep).inStep.of_clean⟩

/-- A new machine over the global scope and the memory of another, with the same limit and the same
lines printed. -/
def anew (machine : Machine) : Machine :=
  attach
    { heap := machine.heap
      scopes := { globals := machine.scopes.globals, receiver := machine.scopes.receiver }
      limit := machine.limit
      output := machine.output }

/-- A reset of a machine that was `Used` leaves the global scope only. -/
theorem Used.scopes_reset (used : machine.Used) :
    machine.reset.scopes =
      { globals := machine.scopes.globals, receiver := machine.scopes.receiver } := by
  obtain ⟨attached, inStep⟩ := used.inStep
  have closed : machine.reset.scopes.opened = [] :=
    List.length_eq_zero_iff.mp (blank_reset attached inStep).depth
  unfold Machine.reset clear at closed ⊢
  rw [if_pos attached] at closed ⊢
  dsimp only at closed ⊢
  rw [closed]

/-- A reset of a machine that was `Used` leaves the machine `anew`, but without a receiver. -/
theorem Used.load_reset (used : machine.Used) (program : Program) :
    machine.reset.load program = Machine.load { machine.anew with receivers := #[] } program := by
  unfold Machine.load
  dsimp only [loadPlaced, setBounds]
  rw [used.scopes_reset]
  unfold Machine.reset clear anew Machine.attach
  dsimp only
  rw [used.inStep.1]

/-- The machine `anew` has one receiver more, the one of the scope store. -/
theorem load_anew (machine : Machine) (program : Program) :
    machine.anew.load program =
      (Machine.load { machine.anew with receivers := #[] } program).renewing
        machine.scopes.receiver none :=
  rfl

/-- Nothing of the runs of a machine that was `Used` is left once it is reset: it is `Machine.anew`,
a new machine over the same memory and global scope, but for the receiver that the new one starts
with. It runs every program like the new one, `EndsLike`, with the same outcome, trace, printed
lines, result and bindings, if the program `leavesEvenly`: it does not leave a call that was open
when it first took a receiver where there was none with more receivers than the call was made with.
A program that takes none has no such call. -/
theorem reset_runs_anew (used : machine.Used) (program : Program) :
    machine.reset.load program = Machine.load { machine.anew with receivers := #[] } program ∧
      (∀ (fuel : Nat) (traced : Bool) (trace : Array Text),
        leavesEvenly fuel none ⟨machine.reset.load program, []⟩ = true →
        let ended := run (Session.observe traced) fuel trace (machine.reset.load program)
        let other := run (Session.observe traced) fuel trace (machine.anew.load program)
        EndsLike ended other ∧ other.2.2.takeResult.1 = ended.2.2.takeResult.1 ∧
          ended.2.2.takeResult.2.Like other.2.2.takeResult.2) ∧
      ((∀ instruction ∈ program.code, instruction.opcode ≠ .pushthis) →
        ∀ fuel, leavesEvenly fuel none ⟨machine.reset.load program, []⟩ = true) := by
  refine ⟨used.load_reset program, fun fuel traced trace even => ?_, fun absent => ?_⟩
  · rw [used.load_reset program] at even ⊢
    have ended := endsLike_run (indifferent_observe traced) trace rfl rfl even
    rw [load_anew]
    exact ⟨ended, ended.like.takeResult⟩
  · refine leavesEvenly_of_noTake fun loaded member => ?_
    obtain ⟨instruction, present, rfl⟩ := Array.mem_map.mp member
    exact absent instruction present

theorem Used.install (used : machine.Used) : machine.install.Used :=
  ((((((((((used.define ..).define ..).define ..).defineNative ..).defineNative ..).defineNative
    ..).defineNative ..).defineNative ..).defineNative ..).defineNative ..)

/-- A machine on which a program has run. -/
def usedWith (program : Program) : Machine :=
  (run (Session.observe false) 20 #[] ((new 0).install.load program)).2.2

theorem used_usedWith (program : Program) : (usedWith program).Used :=
  (((Used.new 0).install).load (loads_program program)).run ..

/-- What a program results in on a machine. -/
def resultOf (program : Program) (machine : Machine) : Content :=
  let result := (run (Session.observe false) 20 #[] (machine.load program)).2.2.takeResult
  result.2.heap.content result.1

/-- A program that calls a function which takes a receiver and returns it. -/
def takingProgram : Program where
  code := #[{ opcode := .pushthis }, { opcode := .ret },
    { opcode := .push, datum := .ofObject (some 0) },
    { opcode := .call, datum := .ofNumber 0 }]
  items := #[{ name := "f" }]
  start := 2
  stop := 4

theorem reset_runs_anew_taking :
    (run (Session.observe true) 20 #[] ((usedWith takingProgram).anew.load takingProgram)).1 =
        .finished none ∧
      (run (Session.observe true) 20 #[]
          ((usedWith takingProgram).anew.load takingProgram)).2.2.takeResult.1 =
        (usedWith takingProgram).scopes.receiver ∧
      ∀ fuel, leavesEvenly fuel none
        ⟨(usedWith takingProgram).reset.load Host.leavingProgram, []⟩ = true := by
  have even : leavesEvenly 20 none
      ⟨(usedWith takingProgram).reset.load takingProgram, []⟩ = true := by decide +kernel
  have used := used_usedWith takingProgram
  obtain ⟨ended, result, _⟩ := (reset_runs_anew used takingProgram).2.1 20 true #[] even
  rw [ended.outcome, result]
  exact ⟨by decide +kernel, by decide +kernel,
    (reset_runs_anew used Host.leavingProgram).2.2 (by decide)⟩

/-- A program whose function takes a receiver and puts another in its place before it returns, and
that then looks at its own. -/
def replacingProgram : Program where
  code := #[{ opcode := .pushthis }, { opcode := .push, datum := .ofText (Text.ofString "abc") },
    { opcode := .replprop, datum := .ofName "length" }, { opcode := .ret },
    { opcode := .push, datum := .ofObject (some 0) },
    { opcode := .call, datum := .ofNumber 0 },
    { opcode := .fetch, datum := .ofName "this" }, { opcode := .pushim }]
  items := #[{ name := "f" }]
  start := 4
  stop := 8

/-- On a new machine that program finds the receiver which its function has left, and on a machine
that was reset the one of the scope store. A function that the host enters and that takes two
receivers has the new machine break down, and the other comes to its end. -/
theorem reset_runs_otherwise :
    (usedWith replacingProgram).Used ∧
      resultOf replacingProgram (usedWith replacingProgram).anew = .text (Text.ofString "abc") ∧
      resultOf replacingProgram (usedWith replacingProgram).reset ≠
        .text (Text.ofString "abc") ∧
      (run (Session.observe false) 20 #[]
          ((usedWith replacingProgram).anew.load Host.consumingProgram)).1 =
        .failed (.breakdown .receiversConsumed) ∧
      (run (Session.observe false) 20 #[]
          ((usedWith replacingProgram).reset.load Host.consumingProgram)).1 = .finished none := by
  refine ⟨used_usedWith replacingProgram, ?_⟩
  decide +kernel

end Machine

end ScriptEngine
