/-
This file is about the end of a run. A run ends at its end address, and it may come there deep
inside functions that the host has entered: the end of the run then travels as a fault through the
suspended calls, one frame each, and is taken for what it is behind the last of them. Nothing is
executed on that way. The activations of a run are in order for it: each has its frame above the
frame of the call that waits for it, with the address of that call, and the function of the
innermost one either runs or has just returned. Only a function that has taken the receivers of its
caller spoils the end, if its return is what comes to the end address.
-/

import ScriptEngine.Proofs.Reporting

namespace ScriptEngine

open Machine

namespace Configuration

variable {View : Type} {observe : Machine → View → View} {first last before after : Configuration}
  {passed : List Configuration}

/-! ### What an observer sees -/

/-- What an observer has seen once the next move is taken. -/
def shown (observe : Machine → View → View) (configuration : Configuration) (view : View) : View :=
  if configuration.machine.aboutToExecute configuration.pending then
    observe configuration.machine view
  else view

/-- What an observer has seen behind some configurations: the machine before each instruction that
was executed. -/
def seen (observe : Machine → View → View) (passed : List Configuration) (view : View) : View :=
  passed.foldl (fun view configuration => configuration.shown observe view) view

/-- A `loop` that follows a run comes from its first configuration to its last. -/
theorem Run.loop_eq (run : Run first passed last) (fuel : Nat) (view : View) :
    loop observe (passed.length + fuel) first.pending view first.machine =
      loop observe fuel last.pending (seen observe passed view) last.machine := by
  induction run generalizing view with
  | done configuration =>
    rw [List.length_nil, Nat.zero_add]
    rfl
  | @move first second last passed moves rest inductionHypothesis =>
    rw [List.length_cons, Nat.add_right_comm, loop,
      show advance first.pending first.machine = _ from moves]
    exact inductionHypothesis _

theorem loop_succ (fuel : Nat) (pending : List Activation) (view : View) (machine : Machine) :
    loop observe (fuel + 1) pending view machine =
      match advance pending machine with
      | .ok (.running later) after =>
        loop observe fuel later (shown observe ⟨machine, pending⟩ view) after
      | .ok (.finished result) after =>
        (.finished result, shown observe ⟨machine, pending⟩ view, after)
      | .error fault after => (.failed fault, shown observe ⟨machine, pending⟩ view, after) :=
  rfl

/-- A loop that takes the last move of a run ends with its result. -/
theorem loop_of_finished {result : Option CellId} {machine final : Machine}
    {pending : List Activation} (ends : advance pending machine = .ok (.finished result) final)
    (fuel : Nat) (view : View) :
    loop observe (fuel + 1) pending view machine =
      (.finished result, shown observe ⟨machine, pending⟩ view, final) := by
  rw [loop, ends]
  rfl

/-! ### Activations in order -/

/-- The activations of a run that no host waits for: their frames lie apart and have their
addresses, and the innermost function runs or has just returned. -/
structure Orderly (configuration : Configuration) : Prop where
  waiting : ∀ activation ∈ configuration.pending, activation.waiting ≠ .host
  running : ∀ activation ∈ configuration.pending,
    activation.pc ≠ configuration.machine.stop
  positive : ∀ activation ∈ configuration.pending, 0 < activation.depth
  address : ∀ activation ∈ configuration.pending, ∀ frame,
    configuration.machine.frames[activation.depth]? = some frame → frame.pc = activation.pc
  apart : configuration.pending.Pairwise fun inner outer => outer.depth + 2 ≤ inner.depth
  innermost : ∀ activation ∈ configuration.pending.head?,
    activation.depth < configuration.machine.frames.size ∨
      (configuration.machine.frames.size = activation.depth ∧
        configuration.machine.current = activation.pc + 1 ∧
        configuration.machine.operands ≠ #[])

theorem orderly_start (machine : Machine) : Orderly ⟨machine, []⟩ :=
  ⟨by simp, by simp, by simp, by simp, .nil, by simp⟩

/-- Activations that are `Orderly` all lie below the innermost one. -/
theorem Orderly.depth_lt (orderly : before.Orderly) (executes : before.Executes) :
    ∀ activation ∈ before.pending, activation.depth < before.machine.frames.size := by
  obtain ⟨machine, pending⟩ := before
  cases pending with
  | nil => simp
  | cons top outer =>
    have lower := executes.depth_lt
    have below := (List.pairwise_cons.mp orderly.apart).1
    intro activation member
    rcases List.mem_cons.mp member with rfl | deeper
    · exact lower
    · have apart := below activation deeper
      dsimp only
      omega

/-- No activation lies above the frames. -/
theorem Orderly.depth_le (orderly : before.Orderly) :
    ∀ activation ∈ before.pending, activation.depth ≤ before.machine.frames.size := by
  obtain ⟨machine, pending⟩ := before
  cases pending with
  | nil => simp
  | cons top outer =>
    have highest : top.depth ≤ machine.frames.size := by
      rcases orderly.innermost top rfl with lower | ⟨equal, _⟩
      · exact Nat.le_of_lt lower
      · exact Nat.le_of_eq equal.symm
    have below := (List.pairwise_cons.mp orderly.apart).1
    intro activation member
    rcases List.mem_cons.mp member with rfl | deeper
    · exact highest
    · have apart := below activation deeper
      dsimp only
      omega

/-- There is a frame for every activation. -/
theorem Orderly.length_le (orderly : before.Orderly) :
    before.pending.length ≤ before.machine.frames.size := by
  have bound (pending : List Activation)
      (apart : pending.Pairwise fun inner outer => outer.depth + 2 ≤ inner.depth)
      (positive : ∀ activation ∈ pending, 0 < activation.depth) (height : Nat)
      (lower : ∀ activation ∈ pending.head?, activation.depth ≤ height) :
      pending.length ≤ height := by
    induction pending generalizing height with
    | nil => exact Nat.zero_le _
    | cons top outer inductionHypothesis =>
      obtain ⟨below, apart⟩ := List.pairwise_cons.mp apart
      have rest := inductionHypothesis apart
        (fun activation member => positive activation (List.mem_cons_of_mem _ member))
        (top.depth - 1)
        (fun activation member => by
          have := below activation (List.mem_of_mem_head? member)
          omega)
      have first := positive top (List.mem_cons_self ..)
      have reached := lower top rfl
      rw [List.length_cons]
      omega
  exact bound _ orderly.apart orderly.positive _ fun activation member =>
    orderly.depth_le activation (List.mem_of_mem_head? member)

/-- A move that keeps the activations and their frames, while the innermost function runs. -/
theorem Orderly.kept (orderly : before.Orderly) (executes : before.Executes)
    (pending : after.pending = before.pending)
    (stop : after.machine.stop = before.machine.stop)
    (more : before.machine.frames.size ≤ after.machine.frames.size)
    (frames : ∀ index < before.machine.frames.size,
      after.machine.frames[index]? = before.machine.frames[index]?) : after.Orderly := by
  have below := orderly.depth_lt executes
  constructor
  case waiting => exact pending ▸ orderly.waiting
  case running => exact pending ▸ stop ▸ orderly.running
  case positive => exact pending ▸ orderly.positive
  case apart => exact pending ▸ orderly.apart
  case address =>
    intro activation member frame found
    rw [pending] at member
    rw [frames _ (below activation member)] at found
    exact orderly.address activation member frame found
  case innermost =>
    intro activation member
    rw [pending] at member
    have lower := below activation (List.mem_of_mem_head? member)
    exact .inl (by omega)

theorem getElem?_push_of_lt {Value : Type} {values : Array Value} {value : Value} {index : Nat}
    (room : index < values.size) : (values.push value)[index]? = values[index]? := by
  rw [Array.getElem?_push, if_neg (Nat.ne_of_lt room)]

/-- A return, `Returns`, may be that of the innermost function, which has been called from its
address. -/
theorem Returns.orderly {operand : Operand} {frame : Frame}
    (returns : before.Returns operand frame after) (orderly : before.Orderly) : after.Orderly := by
  have below := orderly.depth_lt returns.executes
  have frames : after.machine.frames = before.machine.frames.pop := returns.frames
  have pending : after.pending = before.pending := by rw [returns.after]
  have stop : after.machine.stop = before.machine.stop := by
    rw [returns.after]
    exact congrArg Setting.stop (setting_stepped _)
  constructor
  case waiting => exact pending ▸ orderly.waiting
  case running => exact pending ▸ stop ▸ orderly.running
  case positive => exact pending ▸ orderly.positive
  case apart => exact pending ▸ orderly.apart
  case address =>
    intro activation member saved found
    rw [pending] at member
    rw [frames, Array.getElem?_pop] at found
    split at found
    · exact orderly.address activation member saved found
    · cases found
  case innermost =>
    intro activation member
    rw [pending] at member
    have lower := below activation (List.mem_of_mem_head? member)
    rw [frames, Array.size_pop]
    rcases Nat.lt_or_ge activation.depth (before.machine.frames.size - 1) with inside | reached
    · exact .inl inside
    · have last : before.machine.frames.size - 1 = activation.depth := by omega
      have address : frame.pc = activation.pc := by
        refine orderly.address activation (List.mem_of_mem_head? member) frame ?_
        rw [← last, ← Array.back?_eq_getElem?]
        exact returns.saved
      refine .inr ⟨last, ?_, ?_⟩
      · rw [returns.after, ← address]
        refine current_stepped ?_
        change frame.pc ≠ before.machine.stop
        rw [address]
        exact orderly.running activation (List.mem_of_mem_head? member)
      · rw [returns.operands]
        exact Array.push_ne_empty

/-- A call of a host that waits for a script function has the address of the call and two frames
above all others. -/
theorem Orderly.suspended {machine entered : Machine} {pending : List Activation}
    {activation : Activation} {own inner : Frame}
    (orderly : Orderly ⟨machine, pending⟩) (executes : Executes ⟨machine, pending⟩)
    (stop : entered.stop = machine.stop) (waiting : activation.waiting ≠ .host)
    (address : activation.pc = machine.current) (called : inner.pc = activation.pc)
    (depth : activation.depth = machine.frames.size + 1)
    (frames : entered.frames = (machine.frames.push own).push inner) :
    Orderly ⟨entered, activation :: pending⟩ := by
  have below := orderly.depth_lt executes
  have stays : ∀ index < machine.frames.size,
      entered.frames[index]? = machine.frames[index]? := by
    intro index room
    rw [frames, getElem?_push_of_lt (by rw [Array.size_push]; exact Nat.lt_succ_of_lt room),
      getElem?_push_of_lt room]
  constructor
  case waiting => exact List.forall_mem_cons.mpr ⟨waiting, orderly.waiting⟩
  case running =>
    rw [stop]
    refine List.forall_mem_cons.mpr ⟨?_, orderly.running⟩
    rw [address]
    exact executes.current_ne
  case positive =>
    exact List.forall_mem_cons.mpr ⟨by rw [depth]; exact Nat.succ_pos _, orderly.positive⟩
  case apart =>
    refine List.pairwise_cons.mpr ⟨fun other member => ?_, orderly.apart⟩
    rw [depth]
    exact Nat.succ_le_succ (below other member)
  case address =>
    refine List.forall_mem_cons.mpr ⟨fun frame found => ?_, fun other member frame found => ?_⟩
    · rw [depth, frames, Array.getElem?_push, Array.size_push, if_pos rfl] at found
      cases found
      exact called
    · rw [stays _ (below other member)] at found
      exact orderly.address other member frame found
  case innermost =>
    rintro _ ⟨⟩
    left
    rw [depth, frames, Array.size_push, Array.size_push]
    exact Nat.lt_succ_self _

/-- A call that goes on gives up its own frame, and those of the calls around it stay. -/
theorem Orderly.resumed {machine final : Machine} {pending : List Activation}
    {activation : Activation} (orderly : Orderly ⟨machine, activation :: pending⟩)
    (stop : final.stop = machine.stop) (size : machine.frames.size = activation.depth)
    (frames : final.frames = machine.frames.pop) : Orderly ⟨final, pending⟩ := by
  obtain ⟨below, apart⟩ := List.pairwise_cons.mp orderly.apart
  constructor
  case waiting => exact (List.forall_mem_cons.mp orderly.waiting).2
  case running =>
    rw [stop]
    exact (List.forall_mem_cons.mp orderly.running).2
  case positive => exact (List.forall_mem_cons.mp orderly.positive).2
  case apart => exact apart
  case address =>
    intro other member frame found
    rw [frames, Array.getElem?_pop] at found
    split at found
    · exact orderly.address other (List.mem_cons_of_mem _ member) frame found
    · cases found
  case innermost =>
    intro other member
    left
    have lower := below other (List.mem_of_mem_head? member)
    rw [frames, Array.size_pop]
    omega

/-- Every move keeps the activations `Orderly`. -/
theorem Moves.orderly (moves : before.Moves after) (orderly : before.Orderly) : after.Orderly := by
  have stop : after.machine.stop = before.machine.stop := congrArg Setting.stop moves.setting
  cases moves.step with
  | plain executes present noReturn noCall alike spares =>
    exact orderly.kept executes rfl stop (Nat.le_of_eq (by rw [alike.frames]))
      fun _ _ => by rw [alike.frames]
  | @native machine middle pending count function native this result executes calls kind hosted =>
    have frames : (nativeReturn machine.flags.construct result (machine.callFrame count)
        middle).stepped.frames = machine.frames := (alike_nativeReturn hosted).stepped.frames
    exact orderly.kept executes rfl stop (Nat.le_of_eq (by rw [frames])) fun _ _ => by rw [frames]
  | ret executes present returns topmost saved =>
    have returned : Returns _ _ _ _ := ⟨executes, ⟨_, present, returns⟩, topmost, saved, rfl⟩
    exact returned.orderly orderly
  | @enter machine entered pending count function executes calls script entering =>
    have frames : entered.stepped.frames = machine.frames.push (machine.callFrame count) :=
      (frames_stepped _).trans entering.frames
    refine orderly.kept executes rfl stop ?_ fun index room => ?_
    · rw [frames, Array.size_push]
      exact Nat.le_succ _
    · rw [frames, getElem?_push_of_lt room]
  | @suspend machine middle entered pending count function callee native this receiver? arguments
      executes calls kind hosted activated =>
    obtain ⟨saved, _, _, _, setting⟩ := callHost_ready hosted
    have frames := activated.frames
    rw [saved] at frames
    have address : middle.current = machine.current := by
      rw [callHost_left (leftBy_of_ok hosted)]
      rfl
    have depth : (middle.activation (.call machine.flags.construct)).depth =
        machine.frames.size + 1 := by
      unfold activation
      rw [saved, Array.size_push]
    exact orderly.suspended executes stop Waiting.noConfusion address rfl depth frames
  | @resume machine activation pending construct operand frame reached waits topmost enough
      saved =>
    have size : machine.frames.size = activation.depth := by
      rcases orderly.innermost activation rfl with lower | ⟨equal, _⟩
      · exact absurd reached (Nat.not_le_of_lt lower)
      · exact equal
    exact orderly.resumed stop size (frames_stepped _)

theorem Run.orderly (run : Run first passed last) (orderly : first.Orderly) : last.Orderly := by
  induction run with
  | done => exact orderly
  | move moves _ inductionHypothesis => exact inductionHypothesis (moves.orderly orderly)

/-! ### At the end address -/

/-- A script fault keeps its cause in `unwind`. -/
theorem cause_of_unwind {fault passed : ScriptFault} {pending : List Activation}
    {machine final : Machine}
    (ends : unwind fault pending machine = .error (.script passed) final) :
    passed.cause = fault.cause := by
  induction pending generalizing fault machine with
  | nil =>
    cases ends
    rfl
  | cons activation pending inductionHypothesis =>
    unfold unwind at ends
    cases waits : activation.waiting with
    | host =>
      rw [waits] at ends
      cases ends
      rfl
    | call construct =>
      rw [waits] at ends
      cases saved : machine.frames.back? with
      | none => cases (bind_of_error (leaveFrame_of_none saved)).symm.trans ends
      | some frame =>
        have ends := (bind_of_ok (leaveFrame_of_some saved)).symm.trans ends
        have same := inductionHypothesis ((get_bind _ _).symm.trans ends)
        exact same

/-- How a loop ends at the end address: outside of all activations it is over, and from inside one
of them the end of the run has come out as a fault. -/
def EndsRun (shown : View) (ended : Outcome × View × Machine) : Prop :=
  ended.2.1 = shown ∧
    ((ended.1 = .finished none ∧ ended.2.2.current = ended.2.2.stop) ∨
      ∃ fault, ended.1 = .failed (.script fault) ∧ fault.cause = .leave)

theorem run_of_endsRun {machine : Machine} {fuel : Nat} {view shown : View}
    (ends : EndsRun shown (loop observe fuel [] view machine)) :
    ∃ final, Machine.run observe fuel view machine = (.finished none, shown, final) ∧
      final.current = final.stop := by
  unfold Machine.run
  rcases looped : loop observe fuel [] view machine with ⟨outcome, last, final⟩
  rw [looped] at ends
  obtain ⟨rfl, ⟨rfl, atEnd⟩ | ⟨fault, rfl, left⟩⟩ := ends
  · exact ⟨final, rfl, atEnd⟩
  · exact ⟨_, if_pos left, rfl⟩

/-- At the end address, with the innermost function still running, the next move `EndsRun`: it ends
the loop and executes nothing. -/
theorem Orderly.endsRun (orderly : before.Orderly)
    (inside : ∀ activation ∈ before.pending.head?,
      activation.depth < before.machine.frames.size)
    (atEnd : before.machine.current = before.machine.stop) (fuel : Nat) (view : View) :
    EndsRun view (loop observe (fuel + 1) before.pending view before.machine) := by
  obtain ⟨machine, pending⟩ := before
  dsimp only at atEnd
  cases pending with
  | nil =>
    have move : machine.nextMove [] = .finish := by rw [nextMove, if_pos atEnd]
    have ends : advance [] machine = .ok (.finished none) machine := by
      refine (get_bind _ _).trans ?_
      rw [move]
      rfl
    rw [loop, aboutToExecute, move, ends]
    exact ⟨rfl, .inl ⟨rfl, atEnd⟩⟩
  | cons activation pending =>
    have move : machine.nextMove (activation :: pending) = .leave := by
      rw [nextMove, if_pos (inside activation rfl), if_pos atEnd]
    obtain ⟨fault, final, unwinds, _⟩ :=
      unwind_eq { cause := .leave } orderly.waiting orderly.length_le
    have ends : advance (activation :: pending) machine = .error (.script fault) final := by
      refine (get_bind _ _).trans ?_
      rw [move]
      exact unwinds
    rw [loop, aboutToExecute, move, ends]
    exact ⟨rfl, .inr ⟨fault, rfl, cause_of_unwind unwinds⟩⟩

/-- Who waits for a function that has returned is given its result. -/
theorem advance_of_returned {machine : Machine} {activation : Activation}
    {pending : List Activation} {operand : Operand}
    (returned : machine.frames.size ≤ activation.depth)
    (topmost : machine.operands.back? = some operand)
    (enough : activation.receiverMark ≤ machine.receivers.size) :
    advance (activation :: pending) machine =
      (do
        match activation.waiting with
        | .host => return .finished (some operand.cell)
        | .call construct =>
          finishNative construct operand.cell
          stepOver
          return .running pending : Action Progress) (machine.concluded activation) := by
  have move : machine.nextMove (activation :: pending) = .resume activation pending := by
    rw [nextMove, if_neg (Nat.not_lt_of_le returned)]
  have concludes := (conclude_of_some topmost).trans (if_neg (Nat.not_lt_of_le enough))
  refine (get_bind _ _).trans ?_
  rw [move]
  exact bind_of_ok concludes

/-- The end of a suspended call whose script function has returned is a move. -/
theorem moves_of_resume {machine : Machine} {activation : Activation} {pending : List Activation}
    {construct : Bool} {operand : Operand} {frame : Frame}
    (returned : machine.frames.size ≤ activation.depth)
    (waits : activation.waiting = .call construct) (topmost : machine.operands.back? = some operand)
    (enough : activation.receiverMark ≤ machine.receivers.size)
    (saved : machine.frames.back? = some frame) :
    Moves ⟨machine, activation :: pending⟩
      ⟨(nativeReturn construct operand.cell frame (machine.concluded activation)).stepped,
        pending⟩ := by
  refine (advance_of_returned returned topmost enough).trans ?_
  rw [waits]
  exact bind_of_ok (finishNative_of_some construct operand.cell (by exact saved))

/-- Where the activations are `Orderly`, a function that has just returned with enough receivers
lets the call that waits for it end, and the run goes on behind that call, where the return has led
already. -/
theorem Orderly.moves_of_returned {machine : Machine} {activation : Activation}
    {pending : List Activation} (orderly : Orderly ⟨machine, activation :: pending⟩)
    (returned : machine.frames.size ≤ activation.depth)
    (enough : activation.receiverMark ≤ machine.receivers.size) :
    ∃ after : Machine, Moves ⟨machine, activation :: pending⟩ ⟨after, pending⟩ ∧
      after.current = machine.current ∧ after.frames.size + 1 = activation.depth := by
  rcases orderly.innermost activation rfl with lower | ⟨size, address, filled⟩
  · exact absurd returned (Nat.not_le_of_lt lower)
  dsimp only at size address filled
  have positive := orderly.positive activation (List.mem_cons_self ..)
  obtain ⟨lower, frame, frames⟩ := Array.exists_push_of_size_pos (size.symm ▸ positive)
  obtain ⟨rest, operand, operands⟩ :=
    Array.exists_push_of_size_pos (Array.size_pos_iff.mpr filled)
  have topmost : machine.operands.back? = some operand := by rw [operands, Array.back?_push]
  have saved : machine.frames.back? = some frame := by rw [frames, Array.back?_push]
  obtain ⟨construct, waits⟩ : ∃ construct, activation.waiting = .call construct := by
    cases waits : activation.waiting with
    | host => exact absurd waits (orderly.waiting activation (List.mem_cons_self ..))
    | call construct => exact ⟨construct, rfl⟩
  refine ⟨(nativeReturn construct operand.cell frame (machine.concluded activation)).stepped,
    moves_of_resume returned waits topmost enough saved, ?_, ?_⟩
  · refine (current_stepped ?_).trans address.symm
    exact orderly.running activation (List.mem_cons_self ..)
  · rw [frames_stepped]
    change machine.frames.pop.size + 1 = activation.depth
    rw [Array.size_pop]
    omega

/-- A configuration that is `Overdrawn` is where a run breaks off. -/
theorem Overdrawn.breaksDown (overdrawn : before.Overdrawn) :
    ∃ final, advance before.pending before.machine =
      .error (.breakdown .receiversConsumed) final := by
  obtain ⟨activation, rest, move, filled, short⟩ := overdrawn
  obtain ⟨lower, operand, operands⟩ :=
    Array.exists_push_of_size_pos (Array.size_pos_iff.mpr filled)
  have topmost : before.machine.operands.back? = some operand := by rw [operands, Array.back?_push]
  have resumes : advance before.pending before.machine = resume activation rest before.machine := by
    refine (get_bind _ _).trans ?_
    rw [move]
  exact ⟨_, resumes.trans (bind_of_error ((conclude_of_some topmost).trans (if_pos short)))⟩

/-- Once a run has come to its end address, no instruction of any activation is executed any more.
The run is over like any other, at its end address, unless the configuration is `Overdrawn`: a
function that the host has entered has come there by returning with fewer receivers than it has
found, and then the run breaks off. -/
theorem Run.over_at_stop {machine : Machine} {fuel : Nat} (run : Run ⟨machine, []⟩ passed last)
    (atEnd : last.machine.current = last.machine.stop) (enough : passed.length + 2 ≤ fuel)
    (observe : Machine → View → View) (view : View) :
    (¬ last.Overdrawn → ∃ final, Machine.run observe fuel view machine =
      (.finished none, seen observe passed view, final) ∧ final.current = final.stop) ∧
    (last.Overdrawn → ∃ final, Machine.run observe fuel view machine =
      (.failed (.breakdown .receiversConsumed), seen observe passed view, final)) := by
  have orderly := run.orderly (orderly_start machine)
  obtain ⟨more, rfl⟩ : ∃ more, fuel = passed.length + (more + 1 + 1) :=
    ⟨fuel - passed.length - 2, by omega⟩
  have looped : loop observe (passed.length + (more + 1 + 1)) [] view machine = _ :=
    run.loop_eq (more + 1 + 1) view
  obtain ⟨reached, pending⟩ := last
  by_cases inside : ∀ activation ∈ pending.head?, activation.depth < reached.frames.size
  · refine ⟨fun _ => run_of_endsRun ?_, ?_⟩
    · rw [looped]
      exact orderly.endsRun inside atEnd (more + 1) _
    · rintro ⟨activation, rest, move, _⟩
      obtain ⟨rfl, returned⟩ := nextMove_eq_resume move
      exact absurd (inside activation rfl) (Nat.not_lt_of_le returned)
  cases pending with
  | nil => exact absurd (by simp) inside
  | cons activation rest =>
    have returned : reached.frames.size ≤ activation.depth := by
      refine Nat.le_of_not_lt fun lower => inside ?_
      rintro _ ⟨⟩
      exact lower
    have move : reached.nextMove (activation :: rest) = .resume activation rest := by
      rw [nextMove, if_neg (Nat.not_lt_of_le returned)]
    have idle : reached.aboutToExecute (activation :: rest) = false := by
      rw [aboutToExecute, move]
    refine ⟨fun covered => run_of_endsRun ?_, fun overdrawn => ?_⟩
    · -- The call that waits ends with the next move, and leaves the run at the end address.
      have filled : reached.operands ≠ #[] := by
        rcases orderly.innermost activation rfl with lower | ⟨_, _, filled⟩
        · exact absurd returned (Nat.not_le_of_lt lower)
        · exact filled
      have room : activation.receiverMark ≤ reached.receivers.size :=
        Nat.le_of_not_lt fun short => covered ⟨activation, rest, move, filled, short⟩
      obtain ⟨after, moves, same, size⟩ := orderly.moves_of_returned returned room
      have ended : after.current = after.stop :=
        same.trans (atEnd.trans (congrArg Setting.stop moves.setting).symm)
      rw [looped, loop, idle, show advance (activation :: rest) reached = _ from moves]
      refine (moves.orderly orderly).endsRun (fun outer member => ?_) ended more _
      have apart := (List.pairwise_cons.mp orderly.apart).1 outer (List.mem_of_mem_head? member)
      dsimp only
      omega
    · obtain ⟨broken, breaks⟩ := overdrawn.breaksDown
      unfold Machine.run
      rw [looped, loop, idle, breaks]
      exact ⟨broken, rfl⟩

end Configuration

namespace Host

open ScriptEngine.Configuration

/-- The configuration in which a new host starts to run a program. -/
def startOf (program : Program) : Configuration :=
  ⟨sampleHost.newSession.machine.load program, []⟩

theorem over_at_stop_sample :
    ∃ final, Machine.run (fun machine addresses => addresses ++ [machine.current]) 7 []
      (startOf leavingProgram).machine = (.finished none, [1, 2, 3, 4, 0], final) ∧
        final.current = final.stop := by
  have run := run_after (startOf leavingProgram) 5 (by decide +kernel)
  have covered : ¬ ((startOf leavingProgram).after 5).Overdrawn := by
    rintro ⟨activation, pending, move, _, short⟩
    have inside : ∀ activation ∈ ((startOf leavingProgram).after 5).pending,
        activation.depth < ((startOf leavingProgram).after 5).machine.frames.size := by
      decide +kernel
    obtain ⟨waits, returned⟩ := nextMove_eq_resume move
    exact absurd (inside activation (by rw [waits]; simp)) (Nat.not_lt_of_le returned)
  have addresses : seen (fun machine addresses => addresses ++ [machine.current])
      ((List.range 5).map (startOf leavingProgram).after) [] = [1, 2, 3, 4, 0] := by
    decide +kernel
  rw [← addresses]
  exact (run.over_at_stop (by decide +kernel) (Nat.le_refl 7) _ _).1 covered

/-- The run of `consumingProgram` has a function that takes the receivers of its caller; it comes to
the end address by returning to a call that is the last instruction, and the run breaks off there.
-/
theorem breaksDown_at_stop :
    ∃ passed last, Run (startOf consumingProgram) passed last ∧
      last.machine.current = last.machine.stop ∧
      (Machine.run (fun _ view => view) 10 () (startOf consumingProgram).machine).1 =
        .failed (.breakdown .receiversConsumed) :=
  ⟨_, _, run_after (startOf consumingProgram) 7 (by decide +kernel), by decide +kernel,
    by decide +kernel⟩

end Host

end ScriptEngine
