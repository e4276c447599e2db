/-
This file is about what a call leaves of the scopes. A function that is entered has a scope of its
own, and so has every function that is entered before it returns. All of them lie above the scopes
of the caller, which nothing reaches as long as one of them is open: a declaration binds in the
innermost scope, and each return closes one. Behind the return the scopes are those of the caller
again, name by name and cell by cell, whether an instruction has made the call or the host.
-/

import ScriptEngine.Proofs.MatchingReturn
import ScriptEngine.Proofs.NativeCall

namespace ScriptEngine

open Machine

namespace Configuration

variable {first last : Configuration} {passed : List Configuration} {count : Nat}
  {function : FunctionId}

/-! ### While a function runs -/

/-- `Inside` a call the scopes of the caller lie below at least one other, so that the machine is
`Above` them. -/
theorem Inside.above {base : Scopes} {bottom : List Frame} {outer inner : List Activation}
    (inside : Inside base bottom outer inner first) :
    ∃ more, Scopes.Above (more + 1) base first.machine.scopes := by
  obtain ⟨opened, balance, above⟩ := inside.scopes
  have bound := inside.nested.length_le
  obtain ⟨more, rfl⟩ : ∃ more, opened = more + 1 := ⟨opened - 1, by omega⟩
  exact ⟨more, above⟩

/-- A run from inside a function that has just been entered to somewhere outside passes its return.
Up to there the machine is `Above` the scopes of the caller, and behind it they are all there is. -/
theorem Run.exists_return_above {base : Scopes} (run : Run first passed last)
    (above : Scopes.Above 1 base first.machine.scopes)
    (closed : ∀ activation ∈ first.pending.head?, activation.depth < first.machine.frames.size)
    (outside : last.machine.frames.size < first.machine.frames.size) :
    ∃ body returned rest, passed = body ++ rest ∧
      returned.machine.frames = first.machine.frames.pop ∧ returned.pending = first.pending ∧
      returned.machine.scopes = base ∧ Run returned rest last ∧
      ∀ configuration ∈ body, ∃ opened, Scopes.Above opened base configuration.machine.scopes := by
  obtain ⟨body, leaving, returned, rest, operand, frame, split, within, frames, pending, returns,
    scopes, run, _⟩ := run.exists_return_of_entered above closed outside
  refine ⟨body ++ [leaving], returned, rest, by rw [split]; simp, ?_, ?_, scopes, run, ?_⟩
  · rw [returns.frames, frames]
  · rw [returns.after]
    exact pending
  · intro configuration member
    obtain ⟨made, inside⟩ := within configuration member
    obtain ⟨more, above⟩ := inside.above
    exact ⟨more + 1, above⟩

/-- The scopes of a configuration are those of another with some opened above them. -/
def ScopesAbove (base configuration : Configuration) : Prop :=
  ∃ opened, Scopes.Above opened base.machine.scopes configuration.machine.scopes

/-! ### Calls by instructions -/

theorem Run.scopes_of_script (run : Run first passed last) (executes : first.Executes)
    (calls : first.machine.Calls count function)
    (script : (first.machine.heap.function function).native = none) (moved : passed ≠ [])
    (back : last.machine.frames.size = first.machine.frames.size)
    (away : ∀ configuration ∈ passed.tail,
      configuration.machine.frames.size ≠ first.machine.frames.size) :
    last.machine.scopes = first.machine.scopes ∧
      ∀ configuration ∈ passed.tail, first.ScopesAbove configuration := by
  obtain ⟨second, rest, rfl, moves, run⟩ := run.cases_move moved
  obtain ⟨entered, entering, rfl⟩ := moves.step.of_script executes calls script
  have pushed : entered.stepped.frames =
      first.machine.frames.push (first.machine.callFrame count) :=
    (frames_stepped _).trans entering.frames
  have above : Scopes.Above 1 first.machine.scopes entered.stepped.scopes := by
    rw [scopes_stepped]
    exact Scopes.Above.opens ⟨rfl, (Nat.zero_add _).symm, rfl, rfl⟩ entering.scopes
  obtain ⟨body, returned, later, rfl, frames, _, scopes, run, within⟩ := run.exists_return_above
    above
    (by
      intro activation member
      rw [pushed, Array.size_push]
      exact Nat.lt_succ_of_lt (executes.head_lt activation member))
    (by rw [back, pushed, Array.size_push]; exact Nat.lt_succ_self _)
  rw [List.tail_cons] at away ⊢
  have size : returned.machine.frames.size = first.machine.frames.size := by
    rw [frames, pushed, Array.pop_push]
  obtain ⟨rfl, rfl⟩ := run.eq_of_back size fun configuration member =>
    away configuration (List.mem_append_right _ member)
  rw [List.append_nil]
  exact ⟨scopes, within⟩

/-- The `Step` behind the return of a function that the host has entered ends the native call that
waits for it. -/
theorem Step.of_returned {after : Configuration} {activation : Activation}
    {pending : List Activation} (step : first.Step after)
    (waits : first.pending = activation :: pending)
    (reached : first.machine.frames.size ≤ activation.depth) :
    activation.waiting ≠ .host ∧ after.machine.frames = first.machine.frames.pop ∧
      after.machine.scopes = first.machine.scopes := by
  have busy : ¬ first.Executes := by
    intro executes
    exact Nat.not_lt_of_le reached (executes.head_lt activation (by rw [waits]; rfl))
  cases step with
  | plain executes | ret executes | enter executes | native executes | suspend executes =>
    exact absurd executes busy
  | resume _ waiting =>
    obtain ⟨rfl, rfl⟩ := List.cons.inj waits
    refine ⟨?_, frames_stepped _, scopes_stepped _⟩
    rw [waiting]
    exact Waiting.noConfusion

/-- A run from inside a function that the host has `Activated` to somewhere outside passes its
return. -/
theorem Run.exists_return_of_activated {before entered : Machine} {waiting : Waiting}
    {pending : List Activation} (activated : Activated before entered)
    (run : Run ⟨entered, before.activation waiting :: pending⟩ passed last)
    (outside : last.machine.frames.size ≤ before.frames.size) :
    ∃ body returned rest, passed = body ++ rest ∧ returned.machine.frames = before.frames ∧
      returned.pending = before.activation waiting :: pending ∧
      returned.machine.scopes = before.scopes ∧ Run returned rest last ∧
      ∀ configuration ∈ body,
        ∃ opened, Scopes.Above opened before.scopes configuration.machine.scopes := by
  have size : entered.frames.size = before.frames.size + 1 := by
    rw [activated.frames, Array.size_push]
  obtain ⟨body, returned, rest, split, frames, pending, found⟩ := run.exists_return_above
    (Scopes.Above.opens ⟨rfl, (Nat.zero_add _).symm, rfl, rfl⟩ activated.scopes)
    (by
      rintro _ ⟨⟩
      rw [size]
      exact Nat.lt_succ_self _)
    (by rw [size]; exact Nat.lt_succ_of_le outside)
  rw [activated.frames, Array.pop_push] at frames
  exact ⟨body, returned, rest, split, frames, pending, found⟩

theorem Run.scopes_of_native {native : Native} (run : Run first passed last)
    (executes : first.Executes) (calls : first.machine.Calls count function)
    (kind : (first.machine.heap.function function).native = some native) (moved : passed ≠ [])
    (back : last.machine.frames.size = first.machine.frames.size)
    (away : ∀ configuration ∈ passed.tail,
      configuration.machine.frames.size ≠ first.machine.frames.size) :
    last.machine.scopes = first.machine.scopes ∧
      ∀ configuration ∈ passed.tail, first.ScopesAbove configuration := by
  obtain ⟨second, rest, rfl, moves, run⟩ := run.cases_move moved
  rw [List.tail_cons] at away ⊢
  rcases moves.step.of_native executes calls kind with ⟨this, result, middle, hosted, rfl⟩ |
    ⟨this, callee, receiver?, arguments, middle, entered, hosted, activated, rfl⟩
  · obtain ⟨saved, _, _, scopes, _⟩ := callHost_ready hosted
    have frames : (nativeReturn first.machine.flags.construct result
        (first.machine.callFrame count) middle).stepped.frames = first.machine.frames := by
      rw [frames_stepped]
      exact (congrArg Array.pop saved).trans Array.pop_push
    obtain ⟨rfl, rfl⟩ := run.eq_of_back (congrArg Array.size frames) away
    exact ⟨(scopes_stepped _).trans scopes, by simp⟩
  · obtain ⟨saved, _, _, scopes, _⟩ := callHost_ready hosted
    have size : middle.frames.size = first.machine.frames.size + 1 := by
      rw [saved, Array.size_push]
    obtain ⟨body, waits, later, rfl, frames, pending, same, run, within⟩ :=
      run.exists_return_of_activated activated (by rw [back, size]; exact Nat.le_succ _)
    rw [scopes] at same within
    -- The script function has returned, and the frame of the native call is still there.
    cases run with
    | done =>
      rw [frames, size] at back
      omega
    | @move _ after _ later moves run =>
      obtain ⟨_, popped, kept⟩ :=
        moves.step.of_returned pending (Nat.le_of_eq (by rw [frames]; rfl))
      rw [frames, saved, Array.pop_push] at popped
      obtain ⟨rfl, rfl⟩ := run.eq_of_back (congrArg Array.size popped)
        fun configuration member => away configuration (by simp [member])
      refine ⟨kept.trans same, fun configuration member => ?_⟩
      rcases List.mem_append.mp member with lower | top
      · exact within configuration lower
      · rw [List.mem_singleton.mp top]
        exact ⟨0, by rw [same]; exact ⟨rfl, (Nat.zero_add _).symm, rfl, rfl⟩⟩

/-- Whatever function an instruction calls, in the first configuration with as many frames as before
the scopes are what they were, and until then they lie unchanged below others, `ScopesAbove`. -/
theorem Run.scopes_of_call (run : Run first passed last) (executes : first.Executes)
    (calls : first.machine.Calls count function) (moved : passed ≠ [])
    (back : last.machine.frames.size = first.machine.frames.size)
    (away : ∀ configuration ∈ passed.tail,
      configuration.machine.frames.size ≠ first.machine.frames.size) :
    last.machine.scopes = first.machine.scopes ∧
      ∀ configuration ∈ passed.tail, first.ScopesAbove configuration := by
  cases kind : (first.machine.heap.function function).native with
  | none => exact run.scopes_of_script executes calls kind moved back away
  | some native => exact run.scopes_of_native executes calls kind moved back away

/-! ### Calls by the host -/

/-- The host waits for the outermost activation and for no other. -/
def AwaitedByHost (activation : Activation) (configuration : Configuration) : Prop :=
  ∃ inner, configuration.pending = inner ++ [activation] ∧
    ∀ made ∈ inner, made.waiting ≠ .host

theorem Moves.awaitedByHost {before after : Configuration} {activation : Activation}
    (moves : before.Moves after) (host : activation.waiting = .host)
    (awaited : before.AwaitedByHost activation) : after.AwaitedByHost activation := by
  obtain ⟨inner, pending, called⟩ := awaited
  cases moves.step with
  | plain | ret | enter | native => exact ⟨inner, pending, called⟩
  | @suspend machine middle _ _ =>
    refine ⟨_ :: inner, congrArg (List.cons _) pending, ?_⟩
    intro made member
    rcases List.mem_cons.mp member with rfl | older
    · exact Waiting.noConfusion
    · exact called made older
  | resume reached waiting =>
    cases inner with
    | nil =>
      cases List.cons.inj pending |>.1
      cases host.symm.trans waiting
    | cons top rest =>
      obtain ⟨rfl, below⟩ := List.cons.inj pending
      exact ⟨rest, below, fun made member => called made (List.mem_cons_of_mem _ member)⟩

theorem Run.awaitedByHost {activation : Activation} (run : Run first passed last)
    (host : activation.waiting = .host) (awaited : first.AwaitedByHost activation) :
    last.AwaitedByHost activation := by
  induction run with
  | done => exact awaited
  | move moves _ inductionHypothesis => exact inductionHypothesis (moves.awaitedByHost host awaited)

/-- A run that is `AwaitedByHost` ends behind the return of the function it has entered. -/
theorem AwaitedByHost.returned {activation : Activation} {result : Option CellId}
    {machine final : Machine} {pending : List Activation}
    (awaited : AwaitedByHost activation ⟨machine, pending⟩)
    (ends : advance pending machine = .ok (.finished result) final) :
    machine.frames.size ≤ activation.depth ∧ final.scopes = machine.scopes := by
  obtain ⟨inner, waits, called⟩ := awaited
  have waits : pending = inner ++ [activation] := waits
  have ends := (get_bind _ _).symm.trans ends
  cases move : machine.nextMove pending with
  | finish =>
    have none := waits.symm.trans (nextMove_eq_finish move)
    simp at none
  | leave =>
    rw [move] at ends
    exact absurd ends (unwind_ne_ok _ _ _ _ _)
  | execute =>
    rw [move] at ends
    obtain ⟨_, _, _, _, _, ⟨_, _, impossible⟩ | ⟨_, _, _, impossible⟩⟩ := executeNext_eq_ok ends
    · cases impossible
    · cases impossible
  | resume top rest =>
    rw [move] at ends
    obtain ⟨rfl, reached⟩ := nextMove_eq_resume move
    obtain ⟨_, concluded, concluding, ends⟩ := bind_eq_ok.mp ends
    obtain ⟨_, _, _, _, rfl⟩ := conclude_eq_ok concluding
    cases waiting : top.waiting with
    | call construct =>
      rw [waiting] at ends
      obtain ⟨_, _, _, ends⟩ := bind_eq_ok.mp ends
      cases (bind_of_ok (stepOver_eq _)).symm.trans ends
    | host =>
      rw [waiting] at ends
      cases ends
      cases inner with
      | nil =>
        cases List.cons.inj waits |>.1
        exact ⟨reached, rfl⟩
      | cons first others =>
        cases List.cons.inj waits |>.1
        exact absurd waiting (called top (List.mem_cons_self ..))

end Configuration

namespace Machine

open ScriptEngine.Configuration

/-- A call by the host with `startInvoke` is over at once, or it has a script function entered;
either way it has not touched the scopes before. -/
theorem startInvoke_eq_ok {callee : CellId} {receiver? : Option CellId} {arguments : List CellId}
    {machine final : Machine} {progress : Progress}
    (ends : startInvoke callee receiver? arguments machine = .ok progress final) :
    (∃ result, progress = .finished result ∧ final.scopes = machine.scopes) ∨
      ∃ middle, middle.scopes = machine.scopes ∧ Activated middle final ∧
        progress = .running [middle.activation .host] := by
  obtain ⟨function, ready, preparing, ends⟩ := bind_eq_ok.mp ends
  have ends := (get_bind _ _).symm.trans ends
  have asides : Leads Aside (prepared callee) machine := aside_prepared callee machine
  unfold Leads at asides
  rw [leftBy_of_ok preparing] at asides
  have same : ready.scopes = machine.scopes := by rw [eq_of_aside asides]
  have entering {callee : FunctionId} {receiver? : Option CellId} {arguments : List CellId}
      {middle : Machine} (scopes : middle.scopes = machine.scopes)
      (ends : (do
        return .running [← activate callee receiver? arguments .host] : Action Progress) middle =
          .ok progress final) :
      ∃ middle : Machine, middle.scopes = machine.scopes ∧ Activated middle final ∧
        progress = .running [middle.activation .host] := by
    obtain ⟨made, reached, activating, ends⟩ := bind_eq_ok.mp ends
    cases ends
    obtain ⟨rfl, activated⟩ := activate_eq_ok activating
    exact ⟨middle, scopes, activated, rfl⟩
  cases kind : (ready.heap.function function).native with
  | none =>
    rw [kind] at ends
    exact .inr (entering same ends)
  | some native =>
    rw [kind] at ends
    obtain ⟨call, middle, calling, ends⟩ := bind_eq_ok.mp ends
    have scopes : middle.scopes = machine.scopes := by
      rw [callHost_left (leftBy_of_ok calling)]
      exact same
    cases call with
    | value cell =>
      cases ends
      exact .inl ⟨some cell, rfl, scopes⟩
    | enter => exact .inr (entering scopes ends)

/-- A call by the host with `invoke` that comes to its end leaves the scopes as they were. -/
theorem scopes_of_invoke {View : Type} {observe : Machine → View → View} {fuel : Nat}
    {callee : CellId} {receiver? : Option CellId} {arguments : List CellId} {view shown : View}
    {machine final : Machine} {result : Option CellId}
    (ends : invoke observe fuel callee receiver? arguments view machine =
      (.finished result, shown, final)) : final.scopes = machine.scopes := by
  unfold invoke at ends
  cases started : startInvoke callee receiver? arguments machine with
  | error fault middle =>
    rw [started] at ends
    cases ends
  | ok progress entered =>
    rw [started] at ends
    rcases startInvoke_eq_ok started with ⟨value, rfl, same⟩ | ⟨middle, same, activated, rfl⟩
    · cases ends
      exact same
    obtain ⟨passed, last, run, ⟨finished⟩⟩ := exists_run_of_ended ends Outcome.noConfusion
    have awaited : last.AwaitedByHost (middle.activation .host) :=
      run.awaitedByHost rfl ⟨[], rfl, by simp⟩
    obtain ⟨reached, kept⟩ := awaited.returned finished
    obtain ⟨body, returned, rest, _, frames, pending, scopes, run, _⟩ :=
      run.exists_return_of_activated activated reached
    cases run with
    | done => exact kept.trans (scopes.trans same)
    | move moves =>
      -- Behind the return the host takes over, so that no move can follow it.
      have waits := (moves.step.of_returned pending (Nat.le_of_eq (by rw [frames]; rfl))).1
      exact absurd rfl waits

/-- Calls leave the scopes of the caller alone. Between a call instruction and the first
configuration with as many frames as before, whatever is called and whatever runs meanwhile, the
scopes of the caller lie unchanged below those that were opened since, `ScopesAbove`, and in the end
they are all there is; and a call by the host with `invoke` that comes to its end leaves exactly the
scopes it has found. -/
theorem caller_scopes_kept :
    (∀ {first last : Configuration} {passed : List Configuration} {count : Nat}
      {function : FunctionId}, Run first passed last → first.Executes →
      first.machine.Calls count function → passed ≠ [] →
      last.machine.frames.size = first.machine.frames.size →
      (∀ configuration ∈ passed.tail,
        configuration.machine.frames.size ≠ first.machine.frames.size) →
      last.machine.scopes = first.machine.scopes ∧
        ∀ configuration ∈ passed.tail, first.ScopesAbove configuration) ∧
    ∀ {View : Type} {observe : Machine → View → View} {fuel : Nat} {callee : CellId}
      {receiver? : Option CellId} {arguments : List CellId} {view shown : View}
      {machine final : Machine} {result : Option CellId},
      invoke observe fuel callee receiver? arguments view machine =
        (.finished result, shown, final) → final.scopes = machine.scopes :=
  ⟨Run.scopes_of_call, scopes_of_invoke⟩

/-- A machine about to call a function with a parameter `x` that declares `y`, while both names
are bound in the global scope. -/
def declaringCall : Configuration where
  machine :=
    { heap :=
        { cells := #[{ content := .function ⟨0⟩ }, {}, { content := .null }]
          functions := #[{ entry := 1, params := [Text.ofString "x"] }] }
      scopes := { globals := (Table.insert {} "x" ⟨1⟩).insert "y" ⟨2⟩, receiver := ⟨1⟩ }
      code := #[{ opcode := .call, datum := { kind := .number, number := 1 } },
        { opcode := .news, datum := { kind := .name, text := "y" } },
        { opcode := .push, datum := { kind := .null } }, { opcode := .ret }]
      stop := 4
      operands := #[{ cell := ⟨0⟩ }, { cell := ⟨2⟩ }] }
  pending := []

theorem caller_scopes_kept_sample :
    (declaringCall.after 4).machine.scopes = declaringCall.machine.scopes ∧
      declaringCall.ScopesAbove (declaringCall.after 2) ∧
      (invoke (fun _ view => view) 10 ⟨0⟩ none [⟨2⟩] () declaringCall.machine).2.2.scopes =
        declaringCall.machine.scopes := by
  have run : Run declaringCall
      [declaringCall, declaringCall.after 1, declaringCall.after 2, declaringCall.after 3]
      (declaringCall.after 4) :=
    run_after declaringCall 4 (by decide +kernel)
  have calls : declaringCall.machine.Calls 1 ⟨0⟩ :=
    ⟨⟨_, rfl, rfl, rfl, rfl⟩, by decide, ⟨0⟩, rfl, rfl⟩
  obtain ⟨kept, above⟩ := caller_scopes_kept.1 run rfl calls (by simp) (by decide +kernel)
    (by decide +kernel)
  have returned : (invoke (fun _ view => view) 10 ⟨0⟩ none [⟨2⟩] () declaringCall.machine).1 =
      .finished (some ⟨6⟩) := by decide +kernel
  exact ⟨kept, above _ (by simp), caller_scopes_kept.2 (Prod.ext returned rfl)⟩

end Machine

end ScriptEngine
