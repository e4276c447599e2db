/-
This file is about where a script fault points. An instruction that raises one has not moved the
program counter and has not entered anything, so that the innermost place of the fault is that of
the instruction that has failed. On its way out the fault passes the suspended native calls, and
each of them adds a place. The program counter stays where it is meanwhile, inside the innermost
function: the places that are added have the opcode of a call and the address of the instruction
that has failed. They name the calls they stand for only where the two happen to be the same.
-/

import ScriptEngine.Proofs.Ending
import ScriptEngine.Proofs.Steady

namespace ScriptEngine

namespace Machine

variable {Result Next : Type}

/-! ### Actions that raise nothing -/

/-- The action ends with no script fault. -/
def NeverRaises (action : Action Result) : Prop :=
  ∀ machine inner final, action machine ≠ .error (.script inner) final

theorem neverRaises_pure (result : Result) : NeverRaises (pure result) := by
  rintro _ _ _ ⟨⟩

theorem neverRaises_modify (change : Machine → Machine) : NeverRaises (modify change) := by
  rintro _ _ _ ⟨⟩

theorem neverRaises_get {next : Machine → Action Next}
    (rest : ∀ machine, NeverRaises (next machine)) : NeverRaises (get >>= next) :=
  fun machine => rest machine machine

theorem NeverRaises.bind {action : Action Result} {next : Result → Action Next}
    (first : NeverRaises action) (second : ∀ result, NeverRaises (next result)) :
    NeverRaises (action >>= next) := by
  intro machine inner final ends
  rcases bind_eq_error.mp ends with failed | ⟨result, middle, _, failed⟩
  · exact first machine inner final failed
  · exact second result middle inner final failed

theorem neverRaises_malformed (malformation : Malformation) :
    NeverRaises (malformed malformation : Action Result) := by
  rintro _ _ _ ⟨⟩

theorem neverRaises_onScopes (change : Scopes → Scopes) : NeverRaises (onScopes change) := by
  refine neverRaises_get fun machine => ?_
  split
  · exact neverRaises_modify _
  · rintro _ _ _ ⟨⟩

theorem neverRaises_setFlags : NeverRaises setFlags := by
  have top : NeverRaises top := by
    refine neverRaises_get fun machine => ?_
    split
    · exact neverRaises_pure _
    · exact neverRaises_malformed _
  exact top.bind fun _ => neverRaises_get fun _ => neverRaises_modify _

theorem neverRaises_restore : NeverRaises restore := by
  have popFrame : NeverRaises popFrame := by
    refine neverRaises_get fun machine => ?_
    split
    · exact (neverRaises_modify _).bind fun _ => neverRaises_pure _
    · exact neverRaises_malformed _
  exact popFrame.bind fun _ => (neverRaises_modify _).bind fun _ =>
    (neverRaises_modify _).bind fun _ => neverRaises_pure _

theorem neverRaises_onHeap (operation : StateM Heap Result) : NeverRaises (onHeap operation) := by
  rintro _ _ _ ⟨⟩

theorem neverRaises_bindParameters (names : List Text) (arguments : List CellId) :
    NeverRaises (bindParameters names arguments) := by
  induction names generalizing arguments with
  | nil => exact neverRaises_pure _
  | cons name names inductionHypothesis =>
    unfold bindParameters
    cases arguments with
    | nil | cons =>
      exact (neverRaises_onHeap _).bind fun _ => (neverRaises_onScopes _).bind fun _ =>
        inductionHypothesis _

/-- Entering a script function, `enter`, can only want for a scope store: it `NeverRaises`. -/
theorem neverRaises_enter (function : FunctionId) (arguments : List CellId) (construct : Bool) :
    NeverRaises (enter function arguments construct) := by
  have opened : NeverRaises (enter function arguments false) :=
    (neverRaises_onScopes _).bind fun _ => neverRaises_get fun _ =>
      (neverRaises_bindParameters _ _).bind fun _ => neverRaises_modify _
  cases construct with
  | false => exact opened
  | true => exact ((neverRaises_onHeap _).bind fun _ => neverRaises_modify _).bind fun _ => opened

/-! ### Instructions that raise a script fault -/

/-- A script fault that the action ends with has passed no place yet, and finds the program counter
where it was. -/
def FailsInPlace (action : Action Result) : Prop :=
  ∀ machine inner final, action machine = .error (.script inner) final →
    inner.trail = [] ∧ final.current = machine.current

theorem InPlace.failsInPlace {action : Action Result} (inPlace : InPlace action) :
    FailsInPlace action := by
  intro machine inner final ends
  refine ⟨inPlace.trail machine inner final ends, ?_⟩
  rw [← leftBy_of_error ends, inPlace.current]

theorem NeverRaises.failsInPlace {action : Action Result} (never : NeverRaises action) :
    FailsInPlace action :=
  fun machine inner final ends => absurd ends (never machine inner final)

theorem FailsInPlace.bind {action : Action Result} {next : Result → Action Next}
    (first : InPlace action) (second : ∀ result, FailsInPlace (next result)) :
    FailsInPlace (action >>= next) := by
  intro machine inner final ends
  rcases bind_eq_error.mp ends with failed | ⟨result, middle, started, failed⟩
  · exact first.failsInPlace machine inner final failed
  · obtain ⟨trail, current⟩ := second result middle inner final failed
    exact ⟨trail, current.trans (first.current_of_ok started)⟩

theorem failsInPlace_get {next : Machine → Action Next}
    (rest : ∀ machine, FailsInPlace (next machine)) : FailsInPlace (get >>= next) :=
  fun machine => rest machine machine

theorem inPlace_callHost (native : Native) (receiver? : Option CellId) (arguments : List CellId) :
    InPlace (callHost native receiver? arguments) := by
  constructor
  case current =>
    intro machine
    rw [callHost_left rfl]
  case trail =>
    intro machine inner final ends
    obtain ⟨cause, equal⟩ := raises_callHost native receiver? arguments _ _ _ ends
    cases equal
    rfl

theorem inPlace_leaveFrame : InPlace leaveFrame :=
  .bind steady_popFrame.toInPlace fun _ => .bind (.modify fun _ => rfl) fun _ =>
    .bind (.modify fun _ => rfl) fun _ => .pure _

theorem inPlace_finishNative (construct : Bool) (result : CellId) :
    InPlace (finishNative construct result) := by
  refine .bind inPlace_leaveFrame fun _ => .bind (steady_pushCell _).toInPlace fun _ => ?_
  cases construct with
  | false => exact steady_setFlags.toInPlace
  | true =>
    exact .bind (steady_pushReceiver _).toInPlace fun _ => .bind (.modify fun _ => rfl) fun _ =>
      steady_setFlags.toInPlace

theorem failsInPlace_activate (function : FunctionId) (receiver? : Option CellId)
    (arguments : List CellId) (waiting : Waiting) :
    FailsInPlace (activate function receiver? arguments waiting) := by
  intro machine inner final ends
  rcases activate_cases function receiver? arguments waiting machine with ⟨this, equal⟩ | broken
  · rw [equal, activate_some] at ends
    split at ends
    · cases ends
      exact ⟨rfl, rfl⟩
    · have never : NeverRaises (do
          enter function arguments false
          modify fun machine => { machine with current := machine.current + 1 }
          return machine.activation waiting : Action Activation) :=
        (neverRaises_enter function arguments false).bind fun _ =>
          (neverRaises_modify _).bind fun _ => neverRaises_pure _
      exact absurd ends (never _ _ _)
  · cases broken.symm.trans ends

/-- A native call that fails leaves its frame, but has nothing else to go back to: it
`FailsInPlace`. -/
theorem failsInPlace_callNative (native : Native) (arguments : List CellId) (construct : Bool) :
    FailsInPlace (callNative native arguments construct) := by
  refine .bind steady_receiver.toInPlace fun this => ?_
  intro machine inner final ends
  rcases bind_eq_error.mp ends with failed | ⟨way, middle, tried, ended⟩
  · obtain ⟨first, middle, hosted, outcome⟩ := leavingFrame_eq_error failed
    have inside : FailsInPlace (answered native this arguments construct) := by
      refine .bind (inPlace_callHost _ _ _) fun host => ?_
      cases host with
      | value result => exact (neverRaises_pure _).failsInPlace
      | enter function receiver? passed =>
        intro machine inner final ends
        rcases bind_eq_error.mp ends with failed | ⟨_, _, _, returned⟩
        · exact failsInPlace_activate _ _ _ _ machine inner final failed
        · cases returned
    rcases outcome with ⟨_, rfl, leaving⟩ | ⟨_, frame, rfl, same, leaving⟩ | ⟨other, same, _⟩
    · obtain ⟨trail, current⟩ := inPlace_leaveFrame.failsInPlace _ _ _ leaving
      exact ⟨trail, current.trans (inside _ _ _ hosted).2⟩
    · cases same
      obtain ⟨trail, current⟩ := inside _ _ _ hosted
      exact ⟨trail, (inPlace_leaveFrame.current_of_ok leaving).trans current⟩
    · exact absurd same.symm (other inner)
  · cases way with
    | inr made => cases ended
    | inl result =>
      obtain ⟨host, reached, hosted, continued⟩ := bind_eq_ok.mp (leavingFrame_eq_ok tried)
      cases host with
      | enter function receiver? passed =>
        obtain ⟨_, _, _, returned⟩ := bind_eq_ok.mp continued
        cases returned
      | value value =>
        cases continued
        have finishing : FailsInPlace (do finishNative construct result; return Flow.done) :=
          .bind (inPlace_finishNative construct result) fun _ =>
            (neverRaises_pure _).failsInPlace
        obtain ⟨trail, current⟩ := finishing _ _ _ ended
        exact ⟨trail, current.trans ((inPlace_callHost _ _ _).current_of_ok hosted)⟩

theorem failsInPlace_call (count : Nat) : FailsInPlace (call count) := by
  refine .bind (steady_popOnto _ _).toInPlace fun arguments => .bind steady_pop.toInPlace
    fun callee => failsInPlace_get fun machine => .bind steady_pushFrame.toInPlace fun _ =>
      .bind (.modify fun _ => rfl) fun _ => failsInPlace_get fun later => ?_
  have refused (cause : Cause) : FailsInPlace (do
      let _ ← popFrame
      raise cause : Action Flow) :=
    .bind steady_popFrame.toInPlace fun _ => (steady_raise cause).toInPlace.failsInPlace
  split
  · exact refused _
  · refine .bind (steady_contentOf _).toInPlace fun content => ?_
    split
    · exact refused _
    · refine .bind (Steady.onHeap _).toInPlace fun _ => failsInPlace_get fun _ => ?_
      split
      · exact failsInPlace_callNative _ _ _
      · exact ((neverRaises_enter _ _ _).bind fun _ => neverRaises_pure _).failsInPlace

theorem failsInPlace_ret : FailsInPlace ret := by
  refine .bind steady_pop.toInPlace fun operand => failsInPlace_get fun machine => ?_
  have ending : NeverRaises (do pushCell operand.cell; onScopes Scopes.pop; setFlags) :=
    (neverRaises_modify _).bind fun _ => (neverRaises_onScopes _).bind fun _ => neverRaises_setFlags
  split
  · exact (neverRaises_malformed _).failsInPlace
  · rename_i frame _
    split
    · have constructed : InPlace (constructed frame) := by
        refine (Steady.get fun machine => ?_).toInPlace
        split
        · exact .pure _
        · exact steady_receiver
      refine .bind constructed fun this => NeverRaises.failsInPlace ?_
      exact neverRaises_restore.bind fun _ => (neverRaises_modify _).bind fun _ =>
        (neverRaises_modify _).bind fun _ => ending
    · exact (neverRaises_restore.bind fun _ => ending).failsInPlace

theorem failsInPlace_executePlain (instruction : Instruction CellId) :
    FailsInPlace (executePlain instruction) := by
  cases steady : instruction.opcode.isSteady with
  | true => exact (steady_executePlain steady).failsInPlace
  | false =>
    obtain ⟨opcode, offset, datum⟩ := instruction
    unfold executePlain
    cases opcode with
    | jmp | leave | markst => exact (neverRaises_modify _).failsInPlace
    | jmpz | jmpnz =>
      refine failsInPlace_get fun machine => ?_
      split
      · exact (neverRaises_modify _).failsInPlace
      · exact (neverRaises_pure _).failsInPlace
    | call => exact (neverRaises_malformed _).failsInPlace
    | ret => exact failsInPlace_ret
    | _ => cases steady

/-- An instruction that raises a script fault has not moved the program counter: it `FailsInPlace`.
-/
theorem failsInPlace_execute (instruction : Instruction CellId) :
    FailsInPlace (execute instruction) := by
  by_cases isCall : instruction.opcode = .call
  · unfold execute
    rw [isCall]
    exact .bind (steady_countOf _).toInPlace fun count => failsInPlace_call count
  · rw [execute_of_noCall isCall]
    intro machine inner final ends
    rcases bind_eq_error.mp ends with failed | ⟨_, _, _, done⟩
    · exact failsInPlace_executePlain instruction machine inner final failed
    · cases done

/-! ### Places -/

/-- The instruction at the address of a place has its opcode. -/
def Names (machine : Machine) (place : Place) : Prop :=
  (machine.instructionAt? place.pc).map Instruction.opcode = some place.opcode

/-- What a place `Names` depends on the program only. -/
theorem names_congr {before after : Machine} (setting : after.setting = before.setting)
    (place : Place) : after.Names place ↔ before.Names place := by
  have code : after.code = before.code := congrArg Setting.code setting
  unfold Names instructionAt?
  rw [code]

/-- `unwind` adds the same place once for each suspended call: that of the program counter, with the
opcode of a call. -/
theorem trail_of_unwind {pending : List Activation} {machine final : Machine}
    {fault thrown : ScriptFault}
    (ends : unwind fault pending machine = .error (.script thrown) final)
    (waiting : ∀ activation ∈ pending, activation.waiting ≠ .host) :
    thrown.trail = List.replicate pending.length ⟨machine.current, .call⟩ ++ fault.trail := by
  induction pending generalizing fault machine with
  | nil =>
    cases ends
    rfl
  | cons activation pending inductionHypothesis =>
    unfold unwind at ends
    cases waits : activation.waiting with
    | host => exact absurd waits (waiting activation (List.mem_cons_self ..))
    | call construct =>
      rw [waits] at ends
      rcases bind_eq_error.mp ends with failed | ⟨frame, left, leaving, ends⟩
      · cases saved : machine.frames.back? with
        | none => cases (leaveFrame_of_none saved).symm.trans failed
        | some frame => cases (leaveFrame_of_some saved).symm.trans failed
      · have current := inPlace_leaveFrame.current_of_ok leaving
        rw [inductionHypothesis ((get_bind _ _).symm.trans ends)
          fun other member => waiting other (List.mem_cons_of_mem _ member), current,
          List.length_cons, List.replicate_succ', List.append_assoc]
        rfl

end Machine

/-- The place of the call instruction that an activation waits for. -/
def Activation.place (activation : Activation) : Place :=
  ⟨activation.pc, .call⟩

open Machine

namespace Configuration

/-! ### Suspended calls -/

/-- The calls that wait for a function to return are call instructions of the program. -/
def Suspends (configuration : Configuration) : Prop :=
  ∀ activation ∈ configuration.pending, configuration.machine.Names activation.place

theorem Moves.suspends {before after : Configuration} (moves : before.Moves after)
    (suspends : before.Suspends) : after.Suspends := by
  have same := names_congr moves.setting
  intro activation member
  refine (same activation.place).mpr ?_
  cases moves.step with
  | plain | ret | enter | native => exact suspends activation member
  | resume => exact suspends activation (List.mem_cons_of_mem _ member)
  | @suspend machine middle entered pending count function callee native this receiver? arguments
      executes calls kind hosted activated =>
    rcases List.mem_cons.mp member with rfl | older
    · obtain ⟨instruction, present, isCall, _⟩ := calls.instruction
      have address : middle.current = machine.current := by
        rw [callHost_left (leftBy_of_ok hosted)]
        rfl
      have named : machine.instructionAt? middle.current = some instruction := by
        rw [address]
        exact present
      change (machine.instructionAt? middle.current).map Instruction.opcode = some .call
      rw [named, Option.map_some, isCall]
    · exact suspends activation older

theorem Run.suspends {first last : Configuration} {passed : List Configuration}
    (run : Run first passed last) (suspends : first.Suspends) : last.Suspends := by
  induction run with
  | done => exact suspends
  | move moves _ inductionHypothesis => exact inductionHypothesis (moves.suspends suspends)

/-! ### The trail of a fault -/

/-- A fault has been raised by the next instruction and has come out, by `unwind`, through the
suspended calls. -/
structure FaultsBy (configuration : Configuration) (instruction : Instruction CellId)
    (fault : ScriptFault) : Prop where
  executes : configuration.Executes
  present : configuration.machine.instruction? = some instruction
  fails : ∃ failed, execute instruction configuration.machine =
    .error (.script { cause := fault.cause }) failed
  trail : fault.trail =
    List.replicate configuration.pending.length ⟨configuration.machine.current, .call⟩ ++
      [⟨configuration.machine.current, instruction.opcode⟩]

/-- A move that ends with a script fault executes an instruction that `FaultsBy` it, or comes to the
end of the program. -/
theorem Orderly.faultsBy {configuration : Configuration} {fault : ScriptFault} {final : Machine}
    (orderly : configuration.Orderly)
    (ends : advance configuration.pending configuration.machine = .error (.script fault) final) :
    fault.cause = .leave ∨ ∃ instruction, configuration.FaultsBy instruction fault := by
  cases orderly.fails ends with
  | leaves move unwinds => exact .inl (cause_of_unwind unwinds)
  | stops executes present other failed => exact absurd rfl (other fault)
  | stands other scopes frames => exact absurd rfl (other fault)
  | @raises instruction inner middle _ _ executes present raised unwinds =>
    obtain ⟨trail, current⟩ := failsInPlace_execute instruction _ _ _ raised
    obtain ⟨places, cause⟩ := inner
    have kept : fault.cause = cause := cause_of_unwind unwinds
    cases trail
    refine .inr ⟨instruction, executes, present, ⟨middle, by rw [kept]; exact raised⟩, ?_⟩
    rw [trail_of_unwind unwinds orderly.waiting, current]
    rfl

/-- Each place of a fault `Names` an instruction exactly if the fault has passed no suspended call,
or has been raised by a call itself. -/
theorem FaultsBy.names_iff {configuration : Configuration} {instruction : Instruction CellId}
    {fault : ScriptFault} (raises : configuration.FaultsBy instruction fault) :
    (∀ place ∈ fault.trail, configuration.machine.Names place) ↔
      configuration.pending = [] ∨ instruction.opcode = .call := by
  have innermost : configuration.machine.Names
      ⟨configuration.machine.current, instruction.opcode⟩ := by
    have present : configuration.machine.instructionAt? configuration.machine.current =
      some instruction := raises.present
    unfold Names
    rw [present]
    rfl
  have passed : configuration.machine.Names ⟨configuration.machine.current, .call⟩ ↔
      instruction.opcode = .call := by
    have present : configuration.machine.instructionAt? configuration.machine.current =
      some instruction := raises.present
    unfold Names
    rw [present, Option.map_some, Option.some_inj]
  rw [raises.trail]
  constructor
  · intro names
    rcases Nat.eq_zero_or_pos configuration.pending.length with none | some
    · exact .inl (List.eq_nil_of_length_eq_zero none)
    · refine .inr (passed.mp (names _ (List.mem_append_left _ ?_)))
      exact List.mem_replicate.mpr ⟨Nat.ne_of_gt some, rfl⟩
  · intro whenever place member
    rcases List.mem_append.mp member with outer | last
    · obtain ⟨some, rfl⟩ := List.mem_replicate.mp outer
      rcases whenever with empty | isCall
      · rw [empty] at some
        exact absurd rfl some
      · exact passed.mpr isCall
    · rw [List.mem_singleton.mp last]
      exact innermost

/-- The places of a fault are `Activation.place` of the suspended calls, outermost first, and that
of the instruction that has raised it, exactly if each of those calls has the address of that
instruction. -/
theorem FaultsBy.trail_eq_iff {configuration : Configuration} {instruction : Instruction CellId}
    {fault : ScriptFault} (raises : configuration.FaultsBy instruction fault) :
    fault.trail = (configuration.pending.reverse.map Activation.place) ++
        [⟨configuration.machine.current, instruction.opcode⟩] ↔
      ∀ activation ∈ configuration.pending, activation.pc = configuration.machine.current := by
  rw [raises.trail, List.append_cancel_right_eq, eq_comm, List.eq_replicate_iff]
  constructor
  · rintro ⟨_, same⟩ activation member
    have equal := same activation.place
      (List.mem_map_of_mem (List.mem_reverse.mpr member))
    exact congrArg Place.pc equal
  · intro same
    refine ⟨by simp, fun place member => ?_⟩
    obtain ⟨activation, waits, rfl⟩ := List.mem_map.mp member
    rw [Activation.place, same activation (List.mem_reverse.mp waits)]

end Configuration

namespace Machine

open ScriptEngine.Configuration

/-- Where the script fault of a run points, which `FaultsBy` the last instruction of it. The
innermost place of its trail is that of the instruction that has failed. Every place further out is
meant for one of the suspended calls in `pending`, which are call instructions of the program, but
has the address of the instruction that has failed. So each place `Machine.Names` an instruction of
the program exactly if the fault has passed no suspended call or has been raised by a call, and the
places are `Activation.place` of the calls that it has passed exactly if all of those have the
address of the instruction that has failed. -/
theorem run_fault_trail {View : Type} {observe : Machine → View → View} {fuel : Nat}
    {view shown : View} {machine final : Machine} {fault : ScriptFault}
    (ends : run observe fuel view machine = (.failed (.script fault), shown, final)) :
    ∃ passed last instruction, Run ⟨machine, []⟩ passed last ∧ last.FaultsBy instruction fault ∧
      last.machine.code = machine.code ∧
      (∀ activation ∈ last.pending, last.machine.Names activation.place) ∧
      ((∀ place ∈ fault.trail, last.machine.Names place) ↔
        last.pending = [] ∨ instruction.opcode = .call) ∧
      (fault.trail = (last.pending.reverse.map Activation.place) ++
          [⟨last.machine.current, instruction.opcode⟩] ↔
        ∀ activation ∈ last.pending, activation.pc = last.machine.current) := by
  obtain ⟨reached, left, looped, _, _, _, same⟩ := run_eq ends
  obtain ⟨rfl, within⟩ : reached = .failed (.script fault) ∧ fault.cause ≠ .leave := by
    rcases same with ⟨same, within⟩ | ⟨_, _, _, impossible⟩
    · exact ⟨same, within fault rfl⟩
    · cases impossible
  obtain ⟨passed, last, run, finishes⟩ := exists_run_of_ended looped Outcome.noConfusion
  have orderly := run.orderly (orderly_start machine)
  have suspends : last.Suspends := run.suspends (by simp [Suspends])
  cases finishes with
  | failed ends =>
    rcases orderly.faultsBy ends with leaving | ⟨instruction, raises⟩
    · exact absurd leaving within
    · exact ⟨passed, last, instruction, run, raises, congrArg Setting.code run.setting.2, suspends,
        raises.names_iff, raises.trail_eq_iff⟩

end Machine

namespace Host

open ScriptEngine.Configuration

/-- A program that has the host enter a function which fetches a name that nobody knows. -/
def strayingProgram : Program :=
  enteringProgram { opcode := .fetch, datum := { kind := .name, text := "nope" } }

theorem run_fault_trail_straying :
    ∃ last instruction, Configuration.FaultsBy last instruction
      ⟨[⟨0, .call⟩, ⟨0, .fetch⟩], .unbound "nope"⟩ := by
  have failed : (run (fun _ view => view) 10 () (startOf strayingProgram).machine).1 =
      .failed (.script ⟨[⟨0, .call⟩, ⟨0, .fetch⟩], .unbound "nope"⟩) := by decide +kernel
  obtain ⟨_, last, instruction, _, raises, _⟩ := run_fault_trail (Prod.ext failed rfl)
  exact ⟨last, instruction, raises⟩

/-- The outer place of a fault that has passed a suspended call says that there is a call where the
function that was entered has its fetch. -/
theorem run_fault_trail_misleads :
    ∃ fault place, (run (fun _ view => view) 10 () (startOf strayingProgram).machine).1 =
        .failed (.script fault) ∧ place ∈ fault.trail ∧
      ¬ (startOf strayingProgram).machine.Names place := by
  have fetches : ((startOf strayingProgram).machine.instructionAt? 0).map Instruction.opcode ≠
      some .call := by decide +kernel
  exact ⟨⟨[⟨0, .call⟩, ⟨0, .fetch⟩], .unbound "nope"⟩, ⟨0, .call⟩, by decide +kernel,
    List.mem_cons_self .., fetches⟩

end Host

end ScriptEngine
