/-
This file counts frames and scopes. A frame that does not belong to a native call has a scope of
its own, so in the middle of a run there are as many scopes and suspended native calls together
as there are frames. A script fault, and the end of the program inside a function that the host
has entered, take the run out through the suspended calls, and each of them leaves one frame: not
always its own, but the count is right again behind all of them. A malformed instruction leaves
no frame, and the reset that follows it closes no scope too many, because there never are more
scopes than frames. Only a machine that breaks down is left with frames that have no scope.
-/

import ScriptEngine.Proofs.Nesting
import ScriptEngine.Runner.Host

namespace ScriptEngine

open Machine

/-! ### The count -/

namespace Machine

/-- There are at least as many frames as scopes and suspended native calls together, and on a
clean machine as many. -/
structure InStep (clean : Bool) (suspended : Nat) (machine : Machine) : Prop where
  atMost : machine.scopes.depth + suspended ≤ machine.frames.size
  equal : clean = true → machine.scopes.depth + suspended = machine.frames.size

namespace InStep

variable {clean : Bool} {suspended : Nat} {machine after : Machine}

theorem congr (inStep : InStep clean suspended machine)
    (depth : after.scopes.depth = machine.scopes.depth)
    (frames : after.frames.size = machine.frames.size) : InStep clean suspended after := by
  refine ⟨?_, ?_⟩
  · rw [depth, frames]
    exact inStep.atMost
  · rw [depth, frames]
    exact inStep.equal

theorem of_clean (inStep : InStep true suspended machine) : InStep clean suspended machine :=
  ⟨inStep.atMost, fun _ => inStep.equal rfl⟩

/-- What a failure leaves is at most out of step by the frames it has not left, so that it is
`InStep` once the machine does not count as clean. -/
theorem unclean (inStep : InStep clean suspended machine)
    (depth : after.scopes.depth = machine.scopes.depth)
    (frames : machine.frames.size ≤ after.frames.size) : InStep false 0 after := by
  refine ⟨?_, fun impossible => by cases impossible⟩
  have bound := inStep.atMost
  rw [depth]
  omega

end InStep

end Machine

namespace Configuration

/-- The count in the middle of a run whose suspended activations are all made by calls. -/
structure Balanced (clean : Bool) (configuration : Configuration) : Prop where
  attached : configuration.machine.attached = true
  nested : Nested 0 configuration.pending configuration.machine.frames.size
  waiting : ∀ activation ∈ configuration.pending, activation.waiting ≠ .host
  inStep : configuration.machine.InStep clean configuration.pending.length

/-! ### Moves that go on -/

section Moves

variable {clean : Bool} {before after : Configuration}

/-- A move that makes as many frames as scopes and activations together keeps the count `Balanced`.
-/
theorem Balanced.shift (balanced : before.Balanced clean)
    (attached : after.machine.attached = true)
    (nested : Nested 0 after.pending after.machine.frames.size)
    (waiting : ∀ activation ∈ after.pending, activation.waiting ≠ .host)
    (counts : after.machine.scopes.depth + after.pending.length + before.machine.frames.size =
      before.machine.scopes.depth + before.pending.length + after.machine.frames.size) :
    after.Balanced clean := by
  refine ⟨attached, nested, waiting, ?_, fun isClean => ?_⟩
  · have atMost := balanced.inStep.atMost
    omega
  · have equal := balanced.inStep.equal isClean
    omega

theorem Balanced.alike (balanced : before.Balanced clean)
    (alike : before.machine.Alike after.machine) (pending : after.pending = before.pending) :
    after.Balanced clean := by
  refine balanced.shift ?_ ?_ ?_ ?_
  · exact (congrArg Setting.attached alike.setting).trans balanced.attached
  · rw [pending, alike.frames]
    exact balanced.nested
  · rw [pending]
    exact balanced.waiting
  · rw [pending, alike.frames, alike.scopes.depth]

/-- When a call `Returns`, it leaves one frame and closes one scope; if none is open, there was a
frame too many. -/
theorem Returns.balanced {operand : Operand} {frame : Frame}
    (returns : before.Returns operand frame after) (balanced : before.Balanced clean)
    (attached : after.machine.attached = true) : after.Balanced clean := by
  have frames : after.machine.frames.size = before.machine.frames.size - 1 := by
    rw [returns.frames, Array.size_pop]
  have depth : after.machine.scopes.depth = before.machine.scopes.depth - 1 := by
    rw [returns.after, scopes_stepped]
    exact Scopes.depth_pop _
  have pending : after.pending = before.pending := by rw [returns.after]
  have positive : 0 < before.machine.frames.size := by
    obtain ⟨lower, same⟩ := Array.back?_eq_some_iff.mp returns.saved
    simp [same]
  have nested := balanced.nested.pop positive returns.executes.head_lt
  have bound := nested.length_le
  refine ⟨attached, ?_, ?_, ?_, fun isClean => ?_⟩
  · rw [pending, frames]
    exact nested
  · rw [pending]
    exact balanced.waiting
  · have atMost := balanced.inStep.atMost
    rw [pending]
    omega
  · have equal := balanced.inStep.equal isClean
    rw [pending]
    omega

/-- Every move that lets the run go on keeps the count `Balanced`. -/
theorem Moves.balanced (moves : before.Moves after) (balanced : before.Balanced clean) :
    after.Balanced clean := by
  have attached : after.machine.attached = true :=
    (congrArg Setting.attached moves.setting).trans balanced.attached
  cases moves.step with
  | plain executes present noReturn noCall alike spares => exact balanced.alike alike rfl
  | native executes calls kind hosted =>
    exact balanced.alike (alike_nativeReturn hosted).stepped rfl
  | ret executes present returns topmost saved =>
    have returned : Returns _ _ _ _ := ⟨executes, ⟨_, present, returns⟩, topmost, saved, rfl⟩
    exact returned.balanced balanced attached
  | enter executes calls script entered =>
    refine balanced.shift attached ?_ balanced.waiting ?_
    · rw [frames_stepped, entered.frames]
      exact balanced.nested.mono (by simp [ready, calling])
    · rw [frames_stepped, scopes_stepped, entered.frames, entered.scopes.depth]
      simp [ready, calling]
      omega
  | suspend executes calls kind hosted activated =>
    obtain ⟨saved, _, _, scopes, _⟩ := callHost_ready hosted
    refine balanced.shift attached ⟨?_, ?_, ?_⟩ ?_ ?_
    · simp [activation, saved]
    · simp [activation, activated.frames]
    · simp [activation, saved]
      exact balanced.nested
    · intro made member
      rcases List.mem_cons.mp member with rfl | older
      · exact Waiting.noConfusion
      · exact balanced.waiting made older
    · rw [activated.frames, activated.scopes.depth, saved, scopes]
      simp
      omega
  | @resume machine activation pending construct operand frame reached waits topmost enough
      saved =>
    obtain ⟨positive, atMost, lower⟩ := balanced.nested
    dsimp only at atMost
    have equal : activation.depth = machine.frames.size := Nat.le_antisymm atMost reached
    refine balanced.shift attached ?_ ?_ ?_
    · rw [frames_stepped]
      change Nested 0 pending machine.frames.pop.size
      rw [Array.size_pop, ← equal]
      exact lower
    · exact fun made member => balanced.waiting made (List.mem_cons_of_mem _ member)
    · rw [frames_stepped, scopes_stepped]
      simp [nativeReturn, concluded]
      omega

end Moves

/-! ### Moves that end the run -/

/-- The run comes to its end outside of every activation, and the machine stays as it is. -/
theorem advance_eq_finished {pending : List Activation} {machine final : Machine}
    {result : Option CellId} (waiting : ∀ activation ∈ pending, activation.waiting ≠ .host)
    (ends : advance pending machine = .ok (.finished result) final) :
    pending = [] ∧ final = machine := by
  have ends := (get_bind _ _).symm.trans ends
  cases move : machine.nextMove pending with
  | finish =>
    rw [move] at ends
    cases ends
    exact ⟨nextMove_eq_finish move, rfl⟩
  | leave =>
    rw [move] at ends
    exact absurd ends (unwind_ne_ok _ _ _ _ _)
  | resume activation rest =>
    rw [move] at ends
    obtain ⟨rfl, _⟩ := nextMove_eq_resume move
    obtain ⟨_, concluded, _, ends⟩ := bind_eq_ok.mp ends
    cases waits : activation.waiting with
    | host => exact absurd waits (waiting activation (List.mem_cons_self ..))
    | call construct =>
      rw [waits] at ends
      obtain ⟨_, _, _, ends⟩ := bind_eq_ok.mp ends
      cases (bind_of_ok (stepOver_eq _)).symm.trans ends
  | execute =>
    rw [move] at ends
    obtain ⟨_, _, _, _, _, ⟨_, _, impossible⟩ | ⟨_, _, _, impossible⟩⟩ := executeNext_eq_ok ends
    · cases impossible
    · cases impossible

/-- `unwind` leaves as many frames as there are activations, and no scope. -/
theorem unwind_eq {pending : List Activation} {machine : Machine} (fault : ScriptFault)
    (waiting : ∀ activation ∈ pending, activation.waiting ≠ .host)
    (room : pending.length ≤ machine.frames.size) :
    ∃ passed final, unwind fault pending machine = .error (.script passed) final ∧
      final.scopes = machine.scopes ∧ final.frames.size + pending.length = machine.frames.size := by
  induction pending generalizing machine fault with
  | nil => exact ⟨fault, machine, rfl, rfl, rfl⟩
  | cons activation pending inductionHypothesis =>
    cases waits : activation.waiting with
    | host => exact absurd waits (waiting activation (List.mem_cons_self ..))
    | call construct =>
      rw [List.length_cons] at room ⊢
      obtain ⟨lower, frame, equal⟩ := Array.exists_push_of_size_pos (Nat.zero_lt_of_lt room)
      have left := leaveFrame_of_some (show machine.frames.back? = some frame by
        rw [equal, Array.back?_push])
      have size : machine.frames.pop.size = machine.frames.size - 1 := Array.size_pop
      obtain ⟨passed, final, unwinds, scopes, frames⟩ := inductionHypothesis
        (fault.passing ⟨machine.current, .call⟩)
        (fun other member => waiting other (List.mem_cons_of_mem _ member))
        (show pending.length ≤ ({ machine with
          frames := machine.frames.pop
          flags := frame.flags
          operands := machine.operands.shrink frame.operandMark
          receivers := machine.receivers.shrink frame.receiverMark } : Machine).frames.size by
            rw [size]; omega)
      refine ⟨passed, final, ?_, scopes, by dsimp only at frames; omega⟩
      unfold unwind
      rw [waits]
      exact (bind_of_ok left).trans ((get_bind _ _).trans unwinds)

/-- With a scope store an instruction that fails may have bound names in the innermost scope, as
`Scopes.Declares` says, and leaves the other scopes and the frames as they were. -/
theorem execute_eq_error {instruction : Instruction CellId} {machine final : Machine}
    {fault : Fault} (usable : machine.attached = true)
    (ends : execute instruction machine = .error fault final) :
    machine.scopes.Declares final.scopes ∧ final.frames = machine.frames := by
  have same (kept : final.scopes = machine.scopes ∧ final.frames = machine.frames) :
      machine.scopes.Declares final.scopes ∧ final.frames = machine.frames :=
    ⟨by rw [kept.1]; exact .refl, kept.2⟩
  by_cases isCall : instruction.opcode = .call
  · unfold execute at ends
    rw [isCall] at ends
    rcases countOf_cases instruction.datum with ⟨_, _, equal⟩ | ⟨malformation, equal⟩
    · rw [equal] at ends
      exact same (call_eq_error usable ends)
    · rw [equal] at ends
      cases ends
      exact same ⟨rfl, rfl⟩
  · rw [execute_of_noCall isCall] at ends
    rcases bind_eq_error.mp ends with failed | ⟨_, _, _, done⟩
    · by_cases returns : instruction.opcode = .ret
      · rw [executePlain_of_ret returns] at failed
        exact same (ret_eq_error usable failed)
      · have judged := local_executePlain instruction machine returns isCall
        refine ⟨?_, (judged.alike_of_error failed).frames⟩
        have declares := judged.declares
        rwa [leftBy_of_error failed] at declares
    · cases done

theorem conclude_eq_error {activation : Activation} {machine final : Machine} {fault : Fault}
    (ends : conclude activation machine = .error fault final) :
    (∀ inner, fault ≠ .script inner) ∧ final.scopes = machine.scopes ∧
      final.frames = machine.frames := by
  have ends := (modify_bind _ _ _).symm.trans ends
  cases topmost : machine.operands.back? with
  | none =>
    cases (bind_of_error (pop_of_none (by exact topmost))).symm.trans ends
    exact ⟨fun _ => Fault.noConfusion, rfl, rfl⟩
  | some operand =>
    have ends := (bind_of_ok (pop_of_some (by exact topmost))).symm.trans ends
    have ends := (get_bind _ _).symm.trans ends
    dsimp only at ends
    split at ends
    · cases ends
      exact ⟨fun _ => Fault.noConfusion, rfl, rfl⟩
    · cases ends

/-- Behind `unwind` the count is right without the activations. -/
theorem Balanced.unwound {clean : Bool} {pending : List Activation} {machine middle final : Machine}
    {fault : ScriptFault} {thrown : Fault} (balanced : Balanced clean ⟨machine, pending⟩)
    (depth : middle.scopes.depth = machine.scopes.depth)
    (frames : middle.frames.size = machine.frames.size)
    (ends : unwind fault pending middle = .error thrown final) : final.InStep clean 0 := by
  have room := balanced.nested.length_le
  have atMost := balanced.inStep.atMost
  dsimp only at room atMost
  obtain ⟨passed, reached, unwinds, scopes, size⟩ :=
    unwind_eq fault balanced.waiting (show pending.length ≤ middle.frames.size by omega)
  cases unwinds.symm.trans ends
  dsimp only at size
  refine ⟨?_, fun isClean => ?_⟩
  · rw [scopes]
    omega
  · have equal := balanced.inStep.equal isClean
    dsimp only at equal
    rw [scopes]
    omega

/-- However a move fails on a `Balanced` machine, there are no more scopes than frames; after a
script fault the count of a clean machine is right. -/
theorem Balanced.advance_eq_error {clean : Bool} {pending : List Activation}
    {machine final : Machine} {fault : Fault} (balanced : Balanced clean ⟨machine, pending⟩)
    (ends : advance pending machine = .error fault final) :
    final.InStep false 0 ∧ ∀ inner, fault = .script inner → final.InStep clean 0 := by
  have ends := (get_bind _ _).symm.trans ends
  have weaken (inStep : final.InStep clean 0) : final.InStep false 0 :=
    inStep.unclean rfl (Nat.le_refl _)
  cases move : machine.nextMove pending with
  | finish =>
    rw [move] at ends
    cases ends
  | leave =>
    rw [move] at ends
    have inStep := balanced.unwound rfl rfl ends
    exact ⟨weaken inStep, fun _ _ => inStep⟩
  | resume activation rest =>
    rw [move] at ends
    obtain ⟨rfl, _⟩ := nextMove_eq_resume move
    rcases bind_eq_error.mp ends with failed | ⟨result, concluded, concluding, ended⟩
    · obtain ⟨other, scopes, frames⟩ := conclude_eq_error failed
      refine ⟨balanced.inStep.unclean (by rw [scopes]) (Nat.le_of_eq (by rw [frames])), ?_⟩
      exact fun inner same => absurd same (other inner)
    · obtain ⟨operand, topmost, enough, rfl, rfl⟩ := conclude_eq_ok concluding
      have bound := balanced.nested.length_le
      obtain ⟨lower, frame, equal⟩ := Array.exists_push_of_size_pos
        (show 0 < machine.frames.size by dsimp only [List.length_cons] at bound; omega)
      have saved : (machine.concluded activation).frames.back? = some frame := by
        change machine.frames.back? = some frame
        rw [equal, Array.back?_push]
      cases waits : activation.waiting with
      | host => exact absurd waits (balanced.waiting activation (List.mem_cons_self ..))
      | call construct =>
        rw [waits] at ended
        have ended := (bind_of_ok (finishNative_of_some construct operand.cell saved)).symm.trans
          ended
        cases (bind_of_ok (stepOver_eq _)).symm.trans ended
  | execute =>
    rw [move] at ends
    rcases executeNext_eq_error ends with
      ⟨rfl, other⟩ | ⟨instruction, failure, middle, failed, ways⟩
    · refine ⟨balanced.inStep.unclean rfl (Nat.le_refl _), ?_⟩
      exact fun inner same => absurd same (other inner)
    · obtain ⟨declares, frames⟩ := execute_eq_error balanced.attached failed
      have depth := declares.retains.depth
      rcases ways with ⟨inner, passed, rfl, unwinds⟩ | ⟨other, rfl, rfl⟩
      · have inStep := balanced.unwound depth (by rw [frames]) unwinds
        exact ⟨weaken inStep, fun _ _ => inStep⟩
      · refine ⟨balanced.inStep.unclean depth (Nat.le_of_eq (by rw [frames])), ?_⟩
        exact fun inner same => absurd same (other inner)

/-! ### Whole runs -/

/-- However the run of a `Balanced` machine ends, there are no more scopes than frames; if it comes
to its end or to a script fault, the count of a clean machine is right. -/
theorem Balanced.loop {View : Type} {observe : Machine → View → View} {clean : Bool} {fuel : Nat}
    {pending : List Activation} {view last : View} {machine final : Machine} {outcome : Outcome}
    (balanced : Balanced clean ⟨machine, pending⟩)
    (ends : Machine.loop observe fuel pending view machine = (outcome, last, final)) :
    final.attached = true ∧ final.InStep false 0 ∧
      ((∃ result, outcome = .finished result) ∨ (∃ fault, outcome = .failed (.script fault)) →
        final.InStep clean 0) := by
  induction fuel generalizing pending view machine with
  | zero =>
    cases ends
    refine ⟨balanced.attached, balanced.inStep.unclean rfl (Nat.le_refl _), ?_⟩
    rintro (⟨_, ⟨⟩⟩ | ⟨_, ⟨⟩⟩)
  | succ fuel inductionHypothesis =>
    rw [Machine.loop] at ends
    have setting := (acts_advance pending machine).setting
    cases advanced : advance pending machine with
    | ok progress reached =>
      rw [advanced] at ends
      cases progress with
      | running later =>
        have moves : Moves ⟨machine, pending⟩ ⟨reached, later⟩ := advanced
        exact inductionHypothesis (moves.balanced balanced) ends
      | finished result =>
        obtain ⟨rfl, rfl⟩ := advance_eq_finished balanced.waiting advanced
        cases ends
        have inStep : final.InStep clean 0 := balanced.inStep
        exact ⟨balanced.attached, inStep.unclean rfl (Nat.le_refl _), fun _ => inStep⟩
    | error fault reached =>
      rw [advanced] at ends
      rw [leftBy_of_error advanced] at setting
      cases ends
      obtain ⟨inStep, script⟩ := balanced.advance_eq_error advanced
      refine ⟨(congrArg Setting.attached setting).trans balanced.attached, inStep, ?_⟩
      rintro (⟨_, ⟨⟩⟩ | ⟨inner, ⟨⟩⟩)
      exact script inner rfl

end Configuration

namespace Machine

theorem run_inStep {View : Type} {observe : Machine → View → View} {clean : Bool} {fuel : Nat}
    {view last : View} {machine final : Machine} {outcome : Outcome}
    (usable : machine.attached = true) (inStep : machine.InStep clean 0)
    (ends : run observe fuel view machine = (outcome, last, final)) :
    final.attached = true ∧ final.InStep false 0 ∧
      ((∃ result, outcome = .finished result) → final.InStep clean 0) := by
  have balanced : Configuration.Balanced clean ⟨machine, []⟩ :=
    ⟨usable, Nat.zero_le _, by simp, inStep⟩
  unfold run at ends
  rcases looped : loop observe fuel [] view machine with ⟨reached, shown, left⟩
  obtain ⟨attached, atMost, equal⟩ := balanced.loop looped
  rw [looped] at ends
  cases reached with
  | finished result =>
    cases ends
    exact ⟨attached, atMost, fun _ => equal (.inl ⟨result, rfl⟩)⟩
  | outOfFuel =>
    cases ends
    exact ⟨attached, atMost, by rintro ⟨_, ⟨⟩⟩⟩
  | failed fault =>
    cases fault with
    | script fault =>
      have inStep := equal (.inr ⟨fault, rfl⟩)
      dsimp only at ends
      split at ends
      · cases ends
        exact ⟨attached, atMost.congr rfl rfl, fun _ => inStep.congr rfl rfl⟩
      · cases ends
        exact ⟨attached, atMost, by rintro ⟨_, ⟨⟩⟩⟩
    | malformed place malformation =>
      cases ends
      exact ⟨attached, atMost, by rintro ⟨_, ⟨⟩⟩⟩
    | breakdown breakdown =>
      cases ends
      exact ⟨attached, atMost, by rintro ⟨_, ⟨⟩⟩⟩

/-- Nothing is left of the runs of a machine, and it is at its first address. -/
structure Blank (machine : Machine) : Prop where
  depth : machine.scopes.depth = 0
  frames : machine.frames = #[]
  operands : machine.operands = #[]
  receivers : machine.receivers = #[]
  flags : machine.flags = {}
  accumulator : machine.accumulator = none
  current : machine.current = machine.start

/-- Where there are no more scopes than frames, by `InStep`, a reset closes them all and leaves the
machine `Blank`. -/
theorem blank_reset {machine : Machine} (usable : machine.attached = true)
    (inStep : machine.InStep false 0) : machine.reset.Blank := by
  refine ⟨?_, rfl, rfl, rfl, rfl, rfl, rfl⟩
  have bound : machine.scopes.opened.length ≤ machine.frames.size := inStep.atMost
  unfold reset clear
  rw [if_pos usable]
  simp only [Scopes.depth, List.length_drop]
  omega

theorem Blank.inStep {machine : Machine} (blank : machine.Blank) : machine.InStep true 0 := by
  have equal : machine.scopes.depth + 0 = machine.frames.size := by
    rw [blank.depth, blank.frames]
    rfl
  exact ⟨Nat.le_of_eq equal, fun _ => equal⟩

end Machine

/-! ### Executions -/

/-- Something is loaded that is in memory: cells may be made for it, and the machine gets its
instructions and bounds. -/
def Loads (load : Machine → Machine) : Prop :=
  ∀ machine, ∃ heap placement, load machine = { machine with heap }.loadPlaced placement

theorem loads_program (program : Program) : Loads (·.load program) :=
  fun _ => ⟨_, _, rfl⟩

namespace Session

/-- The machine of a session between two executions. -/
structure Settled (clean : Bool) (session : Session) : Prop where
  attached : session.machine.attached = true
  inStep : session.machine.InStep clean 0

variable {clean : Bool} {session after : Session} {fuel : Nat} {stop : Option Stop}

theorem settled_run {load : Machine → Machine} (loads : Loads load)
    (settled : session.Settled clean) (ends : run fuel load session = (after, stop)) :
    after.Settled false ∧ (stop = none → after.Settled clean) := by
  obtain ⟨heap, placement, loaded⟩ := loads session.machine
  unfold run at ends
  rcases ran : Machine.run (observe session.traced) fuel session.trace (load session.machine) with
    ⟨outcome, trace, machine⟩
  have usable : (load session.machine).attached = true := by
    rw [loaded]
    exact settled.attached
  have inStep : (load session.machine).InStep clean 0 := by
    rw [loaded]
    exact settled.inStep.congr rfl rfl
  obtain ⟨attached, atMost, equal⟩ := run_inStep usable inStep ran
  dsimp only at ends
  rw [ran] at ends
  cases outcome with
  | finished result =>
    cases ends
    exact ⟨⟨attached, atMost⟩, fun _ => ⟨attached, equal ⟨result, rfl⟩⟩⟩
  | outOfFuel =>
    cases ends
    exact ⟨⟨attached, atMost⟩, by rintro ⟨⟩⟩
  | failed fault =>
    cases fault with
    | script fault =>
      cases ends
      exact ⟨⟨attached, atMost⟩, by rintro ⟨⟩⟩
    | malformed place malformation =>
      cases ends
      exact ⟨⟨attached, atMost⟩, by rintro ⟨⟩⟩
    | breakdown breakdown =>
      cases ends
      exact ⟨⟨attached, atMost⟩, by rintro ⟨⟩⟩

theorem Settled.unclean (settled : session.Settled clean) : session.Settled false :=
  ⟨settled.attached, settled.inStep.unclean rfl (Nat.le_refl _)⟩

theorem Settled.reset (settled : session.Settled clean) :
    ({ session with machine := session.machine.reset } : Session).Settled true :=
  ⟨settled.attached, (blank_reset settled.attached settled.unclean.inStep).inStep⟩

theorem settled_runPreload {preload : List (Except LoadError Program)}
    (settled : session.Settled clean) (ends : runPreload fuel preload session = (after, stop)) :
    after.Settled false ∧ (stop = none → after.Settled clean) := by
  induction preload generalizing session with
  | nil =>
    cases ends
    exact ⟨settled.unclean, fun _ => settled⟩
  | cons loaded rest inductionHypothesis =>
    cases loaded with
    | error error =>
      cases ends
      exact ⟨settled.unclean, by rintro ⟨⟩⟩
    | ok program =>
      rw [runPreload] at ends
      rcases ran : run fuel (·.load program) session with ⟨middle, stopped⟩
      obtain ⟨unclean, _⟩ := settled_run (loads_program program) settled ran
      rw [ran] at ends
      cases stopped with
      | some reason =>
        cases ends
        exact ⟨unclean, by rintro ⟨⟩⟩
      | none =>
        exact inductionHypothesis ⟨unclean.reset.attached, unclean.reset.inStep.of_clean⟩ ends

/-- An execution that has failed leaves a session `Settled` on a blank machine; one that was cut off
leaves at least as many frames as scopes. -/
theorem settled_stopped {tapOnFault : Bool} {reason : Stop} {execution : Execution}
    (settled : session.Settled clean)
    (ends : stopped tapOnFault session reason = (after, execution)) :
    after.Settled false ∧ (∀ cell, execution ≠ .value cell) ∧
      ∀ error, execution = .failed error → after.machine.Blank := by
  cases reason with
  | broken breakdown =>
    cases ends
    exact ⟨settled.unclean, fun _ => Execution.noConfusion, fun _ => Execution.noConfusion⟩
  | outOfFuel =>
    cases ends
    exact ⟨settled.unclean, fun _ => Execution.noConfusion, fun _ => Execution.noConfusion⟩
  | error error =>
    have same : (tapFault tapOnFault session).machine = session.machine := by
      unfold tapFault
      split <;> rfl
    cases ends
    have blank := blank_reset settled.attached settled.unclean.inStep
    rw [same]
    refine ⟨⟨settled.attached, blank.inStep.of_clean⟩, fun _ => Execution.noConfusion, ?_⟩
    exact fun _ _ => blank

theorem settled_executeLoaded {tapOnFault : Bool} {preload : List (Except LoadError Program)}
    {load : Machine → Machine} {execution : Execution} (loads : Loads load)
    (settled : session.Settled clean)
    (ends : executeLoaded fuel tapOnFault preload load session = (after, execution)) :
    after.Settled false ∧ (∀ cell, execution = .value cell → after.Settled clean) ∧
      ∀ error, execution = .failed error → after.machine.Blank := by
  unfold executeLoaded at ends
  rcases prepared : session.prepare fuel preload with ⟨middle, stop⟩
  have begun : middle.Settled false ∧ (stop = none → middle.Settled clean) := by
    unfold prepare at prepared
    split at prepared
    · cases prepared
      exact ⟨settled.unclean, fun _ => settled⟩
    · have marked : Settled clean { session with preloaded := true } :=
        ⟨settled.attached, settled.inStep⟩
      exact settled_runPreload marked prepared
  rw [prepared] at ends
  cases stop with
  | some reason =>
    obtain ⟨unclean, noValue, failed⟩ := settled_stopped begun.1 ends
    exact ⟨unclean, fun cell same => absurd same (noValue cell), failed⟩
  | none =>
    dsimp only at ends
    rcases ran : run fuel load middle with ⟨reached, stop⟩
    obtain ⟨unclean, finished⟩ := settled_run loads (begun.2 rfl) ran
    rw [ran] at ends
    cases stop with
    | some reason =>
      obtain ⟨unclean, noValue, failed⟩ := settled_stopped unclean ends
      exact ⟨unclean, fun cell same => absurd same (noValue cell), failed⟩
    | none =>
      have result : reached.machine.takeResult.2.attached = reached.machine.attached ∧
          reached.machine.takeResult.2.scopes = reached.machine.scopes ∧
          reached.machine.takeResult.2.frames = reached.machine.frames := by
        unfold takeResult
        split <;> exact ⟨rfl, rfl, rfl⟩
      cases ends
      have kept : Settled clean { reached with machine := reached.machine.takeResult.2 } := by
        refine ⟨result.1.trans (finished rfl).attached, (finished rfl).inStep.congr ?_ ?_⟩
        · rw [result.2.1]
        · rw [result.2.2]
      exact ⟨kept.unclean, fun _ _ => kept, fun _ => Execution.noConfusion⟩

end Session

/-- Whether a machine is clean after an execution: a failure resets it, and an execution that
breaks off leaves it as it stands. -/
def Execution.leavesClean (clean : Bool) : Execution → Bool
  | .value _ => clean
  | .failed _ => true
  | .broken _ | .outOfFuel => false

namespace Host

/-- The sessions that a host reaches by executing one thing after another on a new machine; the
machine is clean if no execution has broken off since it was new or was last reset. -/
inductive Reached (host : Host) : (clean : Bool) → Session → Prop where
  | new : Reached host true host.newSession
  | execute {clean : Bool} {session : Session} {load : Machine → Machine}
    (reached : Reached host clean session) (loads : Loads load) :
    Reached host ((host.executeLoaded load session).2.leavesClean clean)
      (host.executeLoaded load session).1

theorem Reached.settled {host : Host} {clean : Bool} {session : Session}
    (reached : host.Reached clean session) : session.Settled clean := by
  induction reached with
  | new => exact ⟨rfl, Nat.le_refl 0, fun _ => rfl⟩
  | @execute clean session load reached loads inductionHypothesis =>
    obtain ⟨unclean, value, failed⟩ := Session.settled_executeLoaded loads inductionHypothesis
      (show host.executeLoaded load session = (_, _) from rfl)
    cases ends : (host.executeLoaded load session).2 with
    | value cell => exact value cell ends
    | failed error => exact ⟨unclean.attached, (failed error ends).inStep⟩
    | broken breakdown => exact unclean
    | outOfFuel => exact unclean

/-- Whatever was executed on a machine before, so that the session is `Host.Reached`: when an
execution returns a value there are no more scopes than frames, and as many if the session is clean,
that is, no execution has broken off since the machine was new or was last reset; when it returns an
error nothing is left of it, and the machine is `Machine.Blank`. -/
theorem executeLoaded_lockstep {host : Host} {clean : Bool} {session after : Session}
    {load : Machine → Machine} {execution : Execution} (reached : host.Reached clean session)
    (loads : Loads load) (ends : host.executeLoaded load session = (after, execution)) :
    (∀ cell, execution = .value cell →
      after.machine.scopes.depth ≤ after.machine.frames.size ∧
        (clean = true → after.machine.scopes.depth = after.machine.frames.size)) ∧
      ∀ error, execution = .failed error → after.machine.Blank := by
  obtain ⟨_, value, failed⟩ := Session.settled_executeLoaded loads reached.settled ends
  refine ⟨fun cell same => ?_, failed⟩
  have inStep := (value cell same).inStep
  exact ⟨inStep.atMost, inStep.equal⟩

/-- A host without files. -/
def sampleHost : Host :=
  { settings := {}, content := fun _ => none, fuel := 10 }

/-- A program that has the host enter a function which ends the run. -/
def leavingProgram : Program where
  code := #[{ opcode := .leave },
    { opcode := .fetch, datum := { kind := .name, text := "invoke" } }, { opcode := .pushim },
    { opcode := .push, datum := { kind := .object, object := some 0 } },
    { opcode := .call, datum := { kind := .number, number := 1 } }]
  items := #[{ name := "f" }]
  start := 1
  stop := 5

theorem executeLoaded_lockstep_sample :
    (sampleHost.execute leavingProgram sampleHost.newSession).1.machine.scopes.depth =
      (sampleHost.execute leavingProgram sampleHost.newSession).1.machine.frames.size := by
  have returned : (sampleHost.execute leavingProgram sampleHost.newSession).2 = .value ⟨14⟩ := by
    decide +kernel
  have ends : sampleHost.executeLoaded (·.load leavingProgram) sampleHost.newSession =
    ((sampleHost.execute leavingProgram sampleHost.newSession).1, .value ⟨14⟩) :=
      Prod.ext rfl returned
  exact ((executeLoaded_lockstep .new (loads_program leavingProgram) ends).1 ⟨14⟩ rfl).2 rfl

/-- A program that has the host enter a function which takes the receivers of its caller, on which
the machine breaks down. -/
def consumingProgram : Program where
  code := #[{ opcode := .pushthis }, { opcode := .pushthis }, { opcode := .ret },
    { opcode := .fetch, datum := { kind := .name, text := "invoke" } }, { opcode := .pushim },
    { opcode := .push, datum := { kind := .object, object := some 0 } },
    { opcode := .call, datum := { kind := .number, number := 1 } }]
  items := #[{ name := "f" }]
  start := 3
  stop := 7

/-- A machine of the `sampleHost` that is used again after it has broken down keeps a frame without
a scope. -/
theorem executeLoaded_outOfStep :
    ∃ session after cell, sampleHost.Reached false session ∧
      sampleHost.execute { code := #[{ opcode := .push }], stop := 1 } session =
        (after, .value cell) ∧
      after.machine.scopes.depth ≠ after.machine.frames.size := by
  have broken : (sampleHost.execute consumingProgram sampleHost.newSession).2 =
      .broken .receiversConsumed := by decide +kernel
  have reached : sampleHost.Reached false
      (sampleHost.execute consumingProgram sampleHost.newSession).1 := by
    have next := Reached.execute (.new : sampleHost.Reached true _) (loads_program consumingProgram)
    rwa [show (sampleHost.executeLoaded (·.load consumingProgram) sampleHost.newSession).2 = _ from
      broken] at next
  refine ⟨_, _, ⟨14⟩, reached, Prod.ext rfl ?_, ?_⟩
  · decide +kernel
  · decide +kernel

end Host

end ScriptEngine
