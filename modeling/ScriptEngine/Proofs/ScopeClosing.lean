/-
This file is about what a reset closes. A run may start while the host has scopes open, and it may
end anywhere: inside calls, inside functions that the host has entered, or by a fault. In the middle
of a run there is one scope for each frame that belongs to no suspended native call, all of them
above the scope that the run has found, in which it may have bound names. An end that travels out
as a script fault leaves one frame for each suspended call, so that a reset, which closes one scope
for each frame, closes exactly those that the run has opened. A malformed instruction and a
breakdown leave no frame on their way: the frames of the suspended calls are still there, and the
reset closes one scope of the host for each of them.
-/

import ScriptEngine.Proofs.Ending

namespace ScriptEngine

open Machine

namespace Scopes

/-- The scopes once some have been closed. -/
def close (scopes : Scopes) (count : Nat) : Scopes :=
  { scopes with opened := scopes.opened.drop count }

theorem close_add (scopes : Scopes) (first second : Nat) :
    scopes.close (first + second) = (scopes.close first).close second := by
  unfold close
  rw [List.drop_drop]

/-- What has been opened `Above` some scopes can be closed again. -/
theorem Above.close_eq {count : Nat} {base scopes : Scopes} (above : Above count base scopes) :
    scopes.close count = base := by
  obtain ⟨opened, _, globals, receiver⟩ := above
  unfold close
  rw [opened, globals, receiver]

/-- Names that are bound in the innermost scope leave those below alone, so that what lies `Above`
them still does, or are bound in the lowest one. -/
theorem Above.declares {count : Nat} {base before after : Scopes}
    (above : Above count base before) (declares : before.Declares after) :
    ∃ started, base.Declares started ∧ Above count started after := by
  cases count with
  | zero =>
    cases above.eq_base
    exact ⟨after, declares, rfl, (Nat.zero_add _).symm, rfl, rfl⟩
  | succ more => exact ⟨base, .refl, above.retains declares.retains⟩

end Scopes

namespace Configuration

variable {before after : Configuration} {base : Scopes}

/-! ### In the middle of a run -/

/-- The run has bound names in the scope that was innermost, and above it there is one scope for
each frame that belongs to no suspended native call. -/
def OpensAbove (base : Scopes) (configuration : Configuration) : Prop :=
  ∃ started opened, base.Declares started ∧
    opened + configuration.pending.length = configuration.machine.frames.size ∧
    Scopes.Above opened started configuration.machine.scopes

theorem opensAbove_start {machine : Machine} (noFrames : machine.frames = #[]) :
    OpensAbove machine.scopes ⟨machine, []⟩ := by
  refine ⟨machine.scopes, 0, .refl, ?_, rfl, (Nat.zero_add _).symm, rfl, rfl⟩
  dsimp only
  rw [noFrames]
  rfl

/-- An instruction that neither calls nor returns only binds names in the innermost scope. -/
theorem Moves.declares {instruction : Instruction CellId} (moves : before.Moves after)
    (executes : before.Executes) (present : before.machine.instruction? = some instruction)
    (noReturn : instruction.opcode ≠ .ret) (noCall : instruction.opcode ≠ .call) :
    before.machine.scopes.Declares after.machine.scopes := by
  obtain ⟨reached, executed, rfl⟩ := moves.exists_plain executes present noCall
  have declares := (local_executePlain instruction before.machine noReturn noCall).declares
  rw [leftBy_of_ok executed] at declares
  rw [scopes_stepped]
  exact declares

/-- A move that keeps frames and activations, and only binds names, keeps `OpensAbove`. -/
theorem OpensAbove.declared (opens : before.OpensAbove base)
    (declares : before.machine.scopes.Declares after.machine.scopes)
    (frames : after.machine.frames = before.machine.frames)
    (pending : after.pending = before.pending) : after.OpensAbove base := by
  obtain ⟨started, opened, bound, balance, above⟩ := opens
  obtain ⟨later, further, lies⟩ := above.declares declares
  refine ⟨later, opened, bound.trans further, ?_, lies⟩
  rw [pending, frames]
  exact balance

/-- A return leaves a frame that belongs to no suspended call, and its scope, so that `OpensAbove`
still holds. -/
theorem OpensAbove.returned {operand : Operand} {frame : Frame} (opens : before.OpensAbove base)
    (returns : before.Returns operand frame after) (orderly : after.Orderly) :
    after.OpensAbove base := by
  obtain ⟨started, opened, bound, balance, above⟩ := opens
  have pending : after.pending = before.pending := by rw [returns.after]
  have size : after.machine.frames.size = before.machine.frames.size - 1 := by
    rw [returns.frames, Array.size_pop]
  have positive : 0 < before.machine.frames.size := by
    obtain ⟨lower, same⟩ := Array.back?_eq_some_iff.mp returns.saved
    simp [same]
  have room := orderly.length_le
  rw [pending, size] at room
  obtain ⟨fewer, rfl⟩ : ∃ fewer, opened = fewer + 1 := ⟨opened - 1, by omega⟩
  refine ⟨started, fewer, bound, by rw [pending, size]; omega, ?_⟩
  rw [returns.after, scopes_stepped]
  exact above.pop

/-- Every move that lets the run go on keeps `OpensAbove`. -/
theorem Moves.opensAbove (moves : before.Moves after) (orderly : before.Orderly)
    (opens : before.OpensAbove base) : after.OpensAbove base := by
  have ordered := moves.orderly orderly
  cases moves.step with
  | plain executes present noReturn noCall alike spares =>
    exact opens.declared (moves.declares executes present noReturn noCall) alike.frames rfl
  | @native machine middle pending count function native this result executes calls kind hosted =>
    obtain ⟨_, _, _, scopes, _⟩ := callHost_ready hosted
    have same : (nativeReturn machine.flags.construct result (machine.callFrame count)
        middle).stepped.scopes = machine.scopes := (scopes_stepped _).trans scopes
    refine opens.declared ?_ (alike_nativeReturn hosted).stepped.frames rfl
    dsimp only
    rw [same]
    exact .refl
  | ret executes present returns topmost saved =>
    have returned : Returns _ _ _ _ := ⟨executes, ⟨_, present, returns⟩, topmost, saved, rfl⟩
    exact opens.returned returned ordered
  | @enter machine entered pending count function executes calls script entering =>
    obtain ⟨started, opened, bound, balance, above⟩ := opens
    have frames : entered.stepped.frames = machine.frames.push (machine.callFrame count) :=
      (frames_stepped _).trans entering.frames
    refine ⟨started, opened + 1, bound, ?_, ?_⟩
    · rw [frames, Array.size_push, ← balance]
      exact Nat.add_right_comm ..
    · rw [scopes_stepped]
      exact above.opens entering.scopes
  | @suspend machine middle entered pending count function callee native this receiver? arguments
      executes calls kind hosted activated =>
    obtain ⟨started, opened, bound, balance, above⟩ := opens
    obtain ⟨saved, _, _, scopes, _⟩ := callHost_ready hosted
    refine ⟨started, opened + 1, bound, ?_, ?_⟩
    · rw [activated.frames, saved, Array.size_push, Array.size_push, ← balance]
      dsimp only [List.length_cons]
      omega
    · rw [← scopes] at above
      exact above.opens activated.scopes
  | @resume machine activation pending construct operand frame reached waits topmost enough
      saved =>
    obtain ⟨started, opened, bound, balance, above⟩ := opens
    have frames : (nativeReturn construct operand.cell frame
        (machine.concluded activation)).stepped.frames = machine.frames.pop := frames_stepped _
    refine ⟨started, opened, bound, ?_, ?_⟩
    · rw [frames, Array.size_pop, ← balance]
      exact (Nat.add_sub_cancel (opened + pending.length) 1).symm
    · rw [scopes_stepped]
      exact above

theorem Run.opensAbove {first last : Configuration} {passed : List Configuration}
    (run : Run first passed last) (orderly : first.Orderly) (opens : first.OpensAbove base) :
    last.OpensAbove base := by
  induction run with
  | done => exact opens
  | move moves _ inductionHypothesis =>
    exact inductionHypothesis (moves.orderly orderly) (moves.opensAbove orderly opens)

/-! ### At the end of a run -/

/-- How many suspended native calls have kept their frames behind a run that has ended with an
`Outcome`: all of them if the machine has been stopped by a malformed instruction or a breakdown,
and none if the run has come to its end or to a script fault. -/
def unleft (configuration : Configuration) : Outcome → Nat
  | .failed (.malformed _ _) | .failed (.breakdown _) => configuration.pending.length
  | .failed (.script _) | .finished _ | .outOfFuel => 0

theorem unleft_of_other {fault : Fault} (other : ∀ inner, fault ≠ .script inner) :
    before.unleft (.failed fault) = before.pending.length := by
  cases fault with
  | script inner => exact absurd rfl (other inner)
  | malformed | breakdown => rfl

/-- What `unwind` leaves: it has left one frame for each suspended call, so that the frames are as
many as the scopes that the run has opened. -/
theorem OpensAbove.unwound {fault : ScriptFault} {middle final : Machine} {thrown : Fault}
    (opens : before.OpensAbove base) (orderly : before.Orderly)
    (declares : before.machine.scopes.Declares middle.scopes)
    (frames : middle.frames = before.machine.frames)
    (ends : unwind fault before.pending middle = .error thrown final) :
    (∃ inner, thrown = .script inner) ∧
      ∃ started, base.Declares started ∧ final.scopes.close final.frames.size = started := by
  obtain ⟨started, opened, bound, balance, above⟩ := opens
  obtain ⟨later, further, lies⟩ := above.declares declares
  obtain ⟨inner, reached, unwinds, scopes, size⟩ := unwind_eq fault orderly.waiting
    (show before.pending.length ≤ middle.frames.size by rw [frames]; exact orderly.length_le)
  cases unwinds.symm.trans ends
  refine ⟨⟨inner, rfl⟩, later, bound.trans further, ?_⟩
  have equal : final.frames.size = opened := by
    rw [frames] at size
    omega
  rw [scopes, equal]
  exact lies.close_eq

/-- Where the machine is stopped while `OpensAbove` holds, the frames of the suspended calls are
still there. -/
theorem OpensAbove.stopped {final : Machine} (opens : before.OpensAbove base)
    (declares : before.machine.scopes.Declares final.scopes)
    (frames : final.frames = before.machine.frames) :
    ∃ started, base.Declares started ∧
      final.scopes.close final.frames.size = started.close before.pending.length := by
  obtain ⟨started, opened, bound, balance, above⟩ := opens
  obtain ⟨later, further, lies⟩ := above.declares declares
  refine ⟨later, bound.trans further, ?_⟩
  rw [frames, ← balance, Scopes.close_add, lies.close_eq]

/-- Closing one scope for each frame at the end of a run, where `Ends` says how it ends, closes what
the run has opened, and those of the host that the run has `unleft`. -/
theorem Ends.close_eq {outcome : Outcome} {final : Machine} (ends : before.Ends outcome final)
    (usable : before.machine.attached = true) (orderly : before.Orderly)
    (opens : before.OpensAbove base) :
    ∃ started, base.Declares started ∧
      final.scopes.close final.frames.size = started.close (before.unleft outcome) := by
  obtain ⟨machine, pending⟩ := before
  cases ends with
  | finished ends =>
    obtain ⟨rfl, rfl⟩ := advance_eq_finished orderly.waiting ends
    have declares : final.scopes.Declares final.scopes := .refl
    exact opens.stopped declares rfl
  | failed ends =>
    cases orderly.fails ends with
    | leaves move unwinds =>
      obtain ⟨⟨thrown, rfl⟩, closed⟩ := opens.unwound orderly .refl rfl unwinds
      exact closed
    | raises executes present raised unwinds =>
      obtain ⟨declares, frames⟩ := execute_eq_error usable raised
      obtain ⟨⟨thrown, rfl⟩, closed⟩ := opens.unwound orderly declares frames unwinds
      exact closed
    | stands other scopes frames =>
      rw [unleft_of_other other]
      exact opens.stopped (by rw [scopes]; exact .refl) frames
    | stops executes present other failed =>
      obtain ⟨declares, frames⟩ := execute_eq_error usable failed
      rw [unleft_of_other other]
      exact opens.stopped declares frames

end Configuration

namespace Machine

open ScriptEngine.Configuration

variable {View : Type} {observe : Machine → View → View} {fuel : Nat} {view shown : View}
  {machine final : Machine} {outcome : Outcome}

/-- A reset is to `close` one scope for each frame that is left. -/
theorem scopes_reset (usable : final.attached = true) :
    final.reset.scopes = final.scopes.close final.frames.size := by
  unfold reset clear Scopes.close
  rw [if_pos usable]

/-- Whatever scopes the host has open when a run starts without frames, and however the run ends, a
reset closes the scopes that the run has opened, and of those of the host as many as the run has
`unleft`, one for each suspended native call whose frame the run has not left: for none of them if
the run has come to its end or to a script fault, and for all of them if it has been stopped by a
malformed instruction or a breakdown. In the scope that was innermost at the start the run has at
most bound names, which `Scopes.Declares`. -/
theorem reset_closes (usable : machine.attached = true) (noFrames : machine.frames = #[])
    (ends : run observe fuel view machine = (outcome, shown, final))
    (ended : outcome ≠ .outOfFuel) :
    ∃ passed last started, Run ⟨machine, []⟩ passed last ∧ last.next? = none ∧
      machine.scopes.Declares started ∧
      final.reset.scopes = started.close (last.unleft outcome) ∧
      final.shutDown.scopes = started.close (last.unleft outcome) := by
  obtain ⟨reached, left, looped, attached, scopes, frames, same⟩ := run_eq ends
  have stopped : reached ≠ .outOfFuel := by
    rcases same with ⟨rfl, _⟩ | ⟨fault, rfl, _⟩
    · exact ended
    · exact Outcome.noConfusion
  obtain ⟨passed, last, run, finishes⟩ := exists_run_of_ended looped stopped
  have orderly := run.orderly (orderly_start machine)
  have opens := run.opensAbove (orderly_start machine) (opensAbove_start noFrames)
  have setting := run.setting.2
  have lastUsable : last.machine.attached = true := (congrArg Setting.attached setting).trans usable
  obtain ⟨started, declares, closed⟩ := finishes.close_eq lastUsable orderly opens
  have finalUsable : final.attached = true := by
    have kept := acts_loop observe fuel [] view machine
    rw [looped] at kept
    exact attached.trans ((congrArg Setting.attached (setting_of_acts kept)).trans usable)
  have equal : final.reset.scopes = started.close (last.unleft outcome) := by
    rw [scopes_reset finalUsable, scopes, frames, closed]
    rcases same with ⟨rfl, _⟩ | ⟨fault, rfl, _, rfl⟩
    · rfl
    · rfl
  exact ⟨passed, last, started, run, finishes.next?_eq_none, declares, equal, equal⟩

end Machine

namespace Host

/-- A new machine of a host that has opened a scope of its own before it loads a program. -/
def scopedMachine (program : Program) : Machine :=
  let machine := sampleHost.newSession.machine
  { machine with scopes := machine.scopes.push }.load program

theorem reset_closes_leaving :
    ∃ started, (scopedMachine leavingProgram).scopes.Declares started ∧
      (run (fun _ view => view) 10 () (scopedMachine leavingProgram)).2.2.reset.scopes =
        started := by
  have finished : (run (fun _ view => view) 10 () (scopedMachine leavingProgram)).1 =
      .finished none := by decide +kernel
  obtain ⟨_, last, started, _, _, declares, equal, _⟩ :=
    reset_closes (show (scopedMachine leavingProgram).attached = true from rfl) rfl
      (Prod.ext finished rfl) Outcome.noConfusion
  exact ⟨started, declares, equal⟩

/-- A program that has the host enter a function which finds no operands. -/
def underflowingProgram : Program :=
  enteringProgram { opcode := .adds }

/-- Behind a malformed instruction in a function that the host has entered, the reset closes the
scope that the host had open when the run started. -/
theorem reset_closes_hostScope :
    (scopedMachine underflowingProgram).frames = #[] ∧
      (scopedMachine underflowingProgram).scopes.depth = 1 ∧
      (run (fun _ view => view) 10 () (scopedMachine underflowingProgram)).1 =
        .failed (.malformed ⟨0, .adds⟩ .operandUnderflow) ∧
      (run (fun _ view => view) 10 ()
        (scopedMachine underflowingProgram)).2.2.reset.scopes.depth = 0 :=
  ⟨rfl, rfl, by decide +kernel, by decide +kernel⟩

end Host

end ScriptEngine
