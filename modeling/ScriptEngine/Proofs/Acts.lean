/-
This file breaks every move down into elementary acts. Whether a move succeeds or fails, the
machine it leaves is reached by quiet changes, by changes of the frames, and by opening and
closing scopes. What every act preserves is therefore preserved by every move of every run,
however it ends.
-/

import ScriptEngine.Proofs.Calls

namespace ScriptEngine

open Relation

namespace Machine

variable {Result : Type}

/-- One elementary act of a machine. -/
inductive Act : Machine → Machine → Prop where
  | quiet {before after : Machine} (quiet : Quiet before after) : Act before after
  | frames (machine : Machine) (frames : Array Frame) : Act machine { machine with frames }
  | openScope (machine : Machine) : Act machine { machine with scopes := machine.scopes.push }
  | closeScope (machine : Machine) : Act machine { machine with scopes := machine.scopes.pop }

theorem Local.acts {taken popped : Nat} {action : Action Result} {machine : Machine}
    (judged : Local taken popped action machine) : Leads Act action machine :=
  judged.quiet.mono fun _ _ quiet => .quiet quiet

/-! ### Stacks, frames and scopes -/

theorem acts_pop (machine : Machine) : Leads Act pop machine := by
  have judged : Local 1 0 (pop >>= pure) machine := .pop fun operand _ => .pure operand
  rw [bind_pure] at judged
  exact judged.acts

theorem acts_onScopes_push (machine : Machine) : Leads Act (onScopes Scopes.push) machine := by
  refine .get ?_
  split
  · exact .modify _ (.openScope machine)
  · exact .throw _

theorem acts_onScopes_pop (machine : Machine) : Leads Act (onScopes Scopes.pop) machine := by
  refine .get ?_
  split
  · exact .modify _ (.closeScope machine)
  · exact .throw _

theorem acts_pushFrame (machine : Machine) : Leads Act pushFrame machine :=
  .modify _ (.frames machine _)

theorem acts_clearConstruct (machine : Machine) : Leads Act clearConstruct machine :=
  .modify _ (.quiet (.flags machine _))

theorem acts_popFrame (machine : Machine) : Leads Act popFrame machine := by
  refine .get ?_
  split
  · exact .bind (.modify _ (.frames machine _)) fun _ _ _ => .pure _
  · exact (local_malformed 0 0 _ machine).acts

theorem acts_cutBack (frame : Frame) (machine : Machine) : Leads Act (cutBack frame) machine := by
  have first := Act.quiet (Quiet.operands machine (machine.operands.shrink frame.operandMark))
  exact .tail (.single first) (.quiet (.receivers _ _))

theorem acts_leaveFrame (machine : Machine) : Leads Act leaveFrame machine :=
  .bind (acts_popFrame machine) fun frame popped _ =>
    .bind (.modify _ (.quiet (.flags popped frame.flags))) fun _ flagged _ =>
      .bind (acts_cutBack frame flagged) fun _ _ _ => .pure frame

theorem acts_restore (machine : Machine) : Leads Act restore machine := by
  refine .bind (acts_popFrame machine) fun frame popped _ => ?_
  have first := Act.quiet (Quiet.current popped frame.pc)
  refine .bind ?_ fun _ moved _ => .bind (acts_cutBack frame moved) fun _ _ _ => .pure frame
  exact .tail (.single first) (.quiet (.flags _ frame.flags))

/-! ### Calls -/

theorem acts_receiver (machine : Machine) : Leads Act receiver machine :=
  (local_receiver machine).acts

theorem acts_pushNewReceiver (function : FunctionId) (machine : Machine) :
    Leads Act (pushNewReceiver function) machine := by
  refine .bind ?_ fun cell middle _ => (local_pushReceiver cell middle).acts
  refine (local_onHeap machine ?_).acts
  exact Heap.changes_bind Heap.changes_allocateObject (fun _ => Heap.changes_get fun _ =>
    Heap.changes_bind (Heap.changes_copyPrototype _ _) fun _ => Heap.changes_pure _) machine.heap

theorem acts_enter (function : FunctionId) (arguments : List CellId) (construct : Bool)
    (machine : Machine) : Leads Act (enter function arguments construct) machine := by
  have opened (middle : Machine) : Leads Act (do
      onScopes Scopes.push
      let body := (← get).heap.function function
      bindParameters body.params arguments
      modify fun machine => { machine with current := body.entry - 1 }) middle :=
    .bind (acts_onScopes_push middle) fun _ pushed _ => .get
      (.bind (local_bindParameters _ _ pushed).acts fun _ bound _ =>
        .modify _ (.quiet (.current bound _)))
  cases construct with
  | false => exact opened machine
  | true => exact .bind (acts_pushNewReceiver function machine) fun _ middle _ => opened middle

theorem acts_activate (function : FunctionId) (receiver? : Option CellId)
    (arguments : List CellId) (waiting : Waiting) (machine : Machine) :
    Leads Act (activate function receiver? arguments waiting) machine := by
  have entering (this : CellId) (middle : Machine) :
      Leads Act (activate function (some this) arguments waiting) middle := by
    refine .bind (.pure this) ?_
    rintro _ _ ⟨⟩
    refine .get (.bind (local_pushReceiver this middle).acts fun _ given _ =>
      .bind (acts_pushFrame given) fun _ saved _ => .get ?_)
    split
    · exact .bind (acts_popFrame saved) fun _ popped _ =>
        .bind (.modify _ (.quiet (.receivers popped _))) fun _ _ _ => .throw _
    · exact .bind (acts_enter function arguments false saved) fun _ entered _ =>
        .bind (.modify _ (.quiet (.current entered _))) fun _ _ _ => .pure _
  cases receiver? with
  | some this => exact entering this machine
  | none => exact .bind (acts_receiver machine) fun this middle _ => entering this middle

theorem acts_conclude (activation : Activation) (machine : Machine) :
    Leads Act (conclude activation) machine := by
  refine .bind (.modify _ (.quiet (.current machine _))) fun _ moved _ => ?_
  refine .bind (acts_pop moved) fun result popped _ => .get ?_
  split
  · exact .throw _
  · exact .bind (.modify _ (.quiet (.receivers popped _))) fun _ _ _ => .pure _

theorem acts_finishNative (construct : Bool) (result : CellId) (machine : Machine) :
    Leads Act (finishNative construct result) machine := by
  refine .bind (acts_leaveFrame machine) fun _ left _ =>
    .bind (local_pushCell result left).acts fun _ pushed _ => ?_
  cases construct with
  | false => exact (local_setFlags pushed).acts
  | true =>
    exact .bind (local_pushReceiver result pushed).acts fun _ given _ =>
      .bind (acts_clearConstruct given) fun _ cleared _ => (local_setFlags cleared).acts

theorem acts_leavingFrame {action : Action Result} {machine : Machine}
    (inner : Leads Act action machine) : Leads Act (leavingFrame action) machine := by
  refine .tryCatch inner fun fault middle _ => ?_
  cases fault with
  | script fault => exact .bind (acts_leaveFrame middle) fun _ _ _ => .throw _
  | malformed place malformation => exact .throw _
  | breakdown breakdown => exact .throw _

theorem acts_callHost (native : Native) (receiver? : Option CellId) (arguments : List CellId)
    (machine : Machine) : Leads Act (callHost native receiver? arguments) machine :=
  (aside_callHost native receiver? arguments machine).mono fun _ _ aside => .quiet aside.quiet

theorem acts_callNative (native : Native) (arguments : List CellId) (construct : Bool)
    (machine : Machine) : Leads Act (callNative native arguments construct) machine := by
  refine .bind (acts_receiver machine) fun this found _ => .bind (acts_leavingFrame ?_) ?_
  · refine .bind (acts_callHost native _ arguments found) fun host hosted _ => ?_
    cases host with
    | value result => exact .pure _
    | enter function receiver? passed =>
      exact .bind (acts_activate function receiver? passed _ hosted) fun _ _ _ => .pure _
  · intro way reached _
    cases way with
    | inl result =>
      exact .bind (acts_finishNative construct result reached) fun _ _ _ => .pure _
    | inr activation => exact .pure _

theorem local_popOnto (count : Nat) (cells : List CellId) (machine : Machine) :
    Local count 0 (popOnto count cells) machine := by
  induction count generalizing cells machine with
  | zero => exact .pure cells
  | succ count inductionHypothesis => exact .pop fun operand _ => inductionHypothesis _ _

theorem acts_call (count : Nat) (machine : Machine) : Leads Act (call count) machine := by
  refine .bind (local_popOnto count [] machine).acts fun arguments taken _ => ?_
  refine .bind (acts_pop taken) fun callee popped _ => .get ?_
  refine .bind (acts_pushFrame popped) fun _ saved _ =>
    .bind (acts_clearConstruct saved) fun _ cleared _ => .get ?_
  split
  · exact .bind (acts_popFrame cleared) fun _ _ _ => .throw _
  · refine .bind (local_contentOf _ cleared).acts fun content read _ => ?_
    split
    · exact .bind (acts_popFrame read) fun _ _ _ => .throw _
    · refine .bind (local_onHeap read (Heap.changes_prepare _ _)).acts fun _ prepared _ => .get ?_
      split
      · exact acts_callNative _ _ _ prepared
      · exact .bind (acts_enter _ _ _ prepared) fun _ _ _ => .pure _

theorem acts_constructed (frame : Frame) (machine : Machine) :
    Leads Act (constructed frame) machine := by
  refine .get ?_
  split
  · exact .pure _
  · exact acts_receiver machine

theorem acts_ret (machine : Machine) : Leads Act ret machine := by
  refine .bind (acts_pop machine) fun result popped _ => .get ?_
  have ending (middle : Machine) :
      Leads Act (do pushCell result.cell; onScopes Scopes.pop; setFlags) middle :=
    .bind (local_pushCell _ middle).acts fun _ pushed _ =>
      .bind (acts_onScopes_pop pushed) fun _ closed _ => (local_setFlags closed).acts
  split
  · exact (local_malformed 0 0 _ popped).acts
  · split
    · exact .bind (acts_constructed _ popped) fun this made _ =>
        .bind (acts_restore made) fun _ restored _ =>
          .bind (local_pushReceiver this restored).acts fun _ given _ =>
            .bind (acts_clearConstruct given) fun _ cleared _ => ending cleared
    · exact .bind (acts_restore popped) fun _ restored _ => ending restored

/-! ### Moves -/

theorem acts_execute (instruction : Instruction CellId) (machine : Machine) :
    Leads Act (execute instruction) machine := by
  unfold execute
  split
  · refine .bind ?_ fun count counted _ => acts_call count counted
    have judged : Local 0 0 (countOf instruction.datum >>= pure) machine := .countOf (.pure _)
    rw [bind_pure] at judged
    exact judged.acts
  · rename_i noCall
    refine .bind ?_ fun _ _ _ => .pure _
    by_cases returns : instruction.opcode = .ret
    · rw [executePlain_of_ret returns]
      exact acts_ret machine
    · exact (local_executePlain instruction machine returns noCall).acts

theorem acts_unwind (fault : ScriptFault) (pending : List Activation) (machine : Machine) :
    Leads Act (unwind fault pending) machine := by
  induction pending generalizing fault machine with
  | nil => exact .throw _
  | cons activation pending inductionHypothesis =>
    unfold unwind
    split
    · exact .throw _
    · exact .bind (acts_leaveFrame machine) fun _ left _ => .get (inductionHypothesis _ left)

theorem acts_stepOver (machine : Machine) : Leads Act stepOver machine := by
  change ReflTransGen Act machine (if machine.current = machine.stop then machine
    else { machine with current := machine.current + 1 })
  split
  · exact .refl
  · exact .single (.quiet (.current machine _))

theorem acts_executeNext (pending : List Activation) (machine : Machine) :
    Leads Act (executeNext pending) machine := by
  refine .get ?_
  split
  · exact (local_malformed 0 0 _ machine).acts
  · rename_i instruction _
    refine .bind (.tryCatch (.map _ (acts_execute instruction machine)) ?_) ?_
    · intro fault failed _
      cases fault with
      | script fault => exact .pure _
      | malformed place malformation => exact .throw _
      | breakdown breakdown => exact .throw _
    · intro flow executed _
      cases flow with
      | inl flow =>
        cases flow with
        | done => exact .bind (acts_stepOver executed) fun _ _ _ => .pure _
        | suspended activation => exact .pure _
      | inr fault => exact .get (acts_unwind _ pending executed)

theorem acts_resume (activation : Activation) (pending : List Activation) (machine : Machine) :
    Leads Act (resume activation pending) machine := by
  refine .bind (acts_conclude activation machine) fun result concluded _ => ?_
  split
  · exact .pure _
  · exact .bind (acts_finishNative _ result concluded) fun _ finished _ =>
      .bind (acts_stepOver finished) fun _ _ _ => .pure _

/-- Every move, `advance`, is a sequence of `Act`s, however it ends. -/
theorem acts_advance (pending : List Activation) (machine : Machine) :
    Leads Act (advance pending) machine := by
  refine .get ?_
  split
  · exact .pure _
  · exact acts_unwind _ pending machine
  · exact acts_resume _ _ machine
  · exact acts_executeNext pending machine

/-! ### What no act changes -/

theorem Act.setting {before after : Machine} (act : Act before after) :
    after.setting = before.setting := by
  cases act with
  | quiet quiet => exact quiet.alike.setting
  | frames frames => rfl
  | openScope => rfl
  | closeScope => rfl

theorem setting_of_acts {before after : Machine} (acts : ReflTransGen Act before after) :
    after.setting = before.setting := by
  induction acts with
  | refl => rfl
  | tail _ act inductionHypothesis => exact act.setting.trans inductionHypothesis

/-- No action made of `Act`s changes the program or the limits of the machine. -/
theorem Leads.setting {action : Action Result} {machine : Machine}
    (leads : Leads Act action machine) : (leftBy action machine).setting = machine.setting :=
  setting_of_acts leads

theorem Act.keepsFunctions {before after : Machine} (act : Act before after) :
    before.heap.KeepsFunctions after.heap := by
  cases act with
  | quiet quiet =>
    cases quiet with
    | memory heap change => exact change.keepsFunctions
    | operands | receivers | flags | accumulator | current | output | binding => exact .of_same rfl
  | frames | openScope | closeScope => exact .of_same rfl

/-- No sequence of `Act`s changes a function but for its properties. -/
theorem keepsFunctions_of_acts {before after : Machine} (acts : ReflTransGen Act before after) :
    before.heap.KeepsFunctions after.heap := by
  induction acts with
  | refl => exact .of_same rfl
  | tail _ act inductionHypothesis => exact inductionHypothesis.trans act.keepsFunctions

theorem Act.receiver {before after : Machine} (act : Act before after) :
    after.scopes.receiver = before.scopes.receiver := by
  cases act with
  | quiet quiet =>
    cases quiet with
    | binding name cell =>
      dsimp only
      unfold Scopes.bind
      split <;> rfl
    | operands | receivers | flags | accumulator | current | output | memory => rfl
  | frames | openScope | closeScope => rfl

/-- No sequence of `Act`s changes the receiver of the scope store. -/
theorem receiver_of_acts {before after : Machine} (acts : ReflTransGen Act before after) :
    after.scopes.receiver = before.scopes.receiver := by
  induction acts with
  | refl => rfl
  | tail _ act inductionHypothesis => exact act.receiver.trans inductionHypothesis

/-! ### Runs -/

/-- A `loop` is a sequence of `Act`s, however it ends. -/
theorem acts_loop {View : Type} (observe : Machine → View → View) (fuel : Nat)
    (pending : List Activation) (view : View) (machine : Machine) :
    ReflTransGen Act machine (loop observe fuel pending view machine).2.2 := by
  induction fuel generalizing pending view machine with
  | zero => exact .refl
  | succ fuel inductionHypothesis =>
    have moved := acts_advance pending machine
    unfold Leads at moved
    rw [loop]
    cases advanced : advance pending machine with
    | ok progress after =>
      rw [leftBy_of_ok advanced] at moved
      cases progress with
      | running later => exact moved.trans (inductionHypothesis later _ after)
      | finished result => exact moved
    | error fault after =>
      rw [leftBy_of_error advanced] at moved
      exact moved

theorem acts_run {View : Type} (observe : Machine → View → View) (fuel : Nat) (view : View)
    (machine : Machine) : ReflTransGen Act machine (run observe fuel view machine).2.2 := by
  have looped := acts_loop observe fuel [] view machine
  unfold run
  split
  · rename_i fault last final ends
    rw [ends] at looped
    split
    · exact looped.tail (.quiet (.current final _))
    · exact looped
  · exact looped

end Machine

end ScriptEngine
