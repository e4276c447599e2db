/-
This file proves that whatever goes wrong in a program is reported. Every instruction and every
move of a run keeps the machine sound, and a run ends with a result or a fault, with one
exception: a configuration is overdrawn when a function that the host has entered returns with
fewer receivers than it has found, and there the run breaks off. An execution breaks off exactly
when one of its runs comes to an overdrawn configuration; every other execution that ends gives a
value or an error, and all of them leave a sound machine for the next.
-/

import ScriptEngine.Proofs.Completeness
import ScriptEngine.Proofs.Lockstep
import ScriptEngine.Proofs.Separation
import ScriptEngine.Proofs.Soundness

namespace ScriptEngine

namespace Machine

variable {machine : Machine}

/-! ### Instructions -/

theorem safe_nameOf (sound : machine.Sound) (datum : Datum CellId) :
    Safe Heap.Anything (nameOf datum) machine := by
  unfold nameOf
  split
  · exact .pure sound trivial
  · exact .pure sound trivial
  · exact .malformed sound _

theorem safe_countOf (sound : machine.Sound) (datum : Datum CellId) :
    Safe Heap.Anything (countOf datum) machine := by
  unfold countOf
  split
  · exact .pure sound trivial
  · exact .malformed sound _

theorem safe_literal {datum : Datum CellId} (sound : machine.Sound)
    (embedded : ∀ cell, datum.object = some cell → machine.heap.Has cell) :
    Safe Heap.Has (literal datum) machine := by
  unfold literal
  split
  · exact .onHeap sound (Heap.keeps_allocateContent sound.memory trivial)
  · exact .onHeap sound (Heap.keeps_allocateContent sound.memory trivial)
  · exact .onHeap sound (Heap.keeps_allocateContent sound.memory trivial)
  · exact .onHeap sound (Heap.keeps_allocateContent sound.memory trivial)
  · split
    · rename_i cell same
      exact .pure sound (embedded cell same)
    · exact .malformed sound _
  · exact .malformed sound _

theorem safe_fetch (sound : machine.Sound) (name : Text) :
    Safe Heap.Anything (fetch name) machine := by
  unfold fetch
  split
  · refine .bind (safe_receiver sound) fun cell _ sound _ has => ?_
    exact .modify (sound.withAccumulator has) (.refl _) trivial
  · refine .get ?_
    rw [if_pos sound.attached]
    split
    · rename_i cell found
      exact .modify (sound.withAccumulator (sound.lookup found)) (.refl _) trivial
    · exact .raise sound _

theorem safe_declare (sound : machine.Sound) (name : Text) :
    Safe Heap.Anything (declare name) machine :=
  .bind (.onHeap sound (Heap.keeps_allocateContent sound.memory trivial))
    fun _ _ sound _ has => safe_onScopes sound (sound.withBinding has name)

theorem safe_store (sound : machine.Sound) : Safe Heap.Anything store machine := by
  refine .bind (safe_pop sound) fun target _ sound _ has => ?_
  refine .bind (safe_pop sound) fun source _ sound grows _ => ?_
  have has := has.mono grows
  refine .bind (safe_contentOf sound source.cell) fun content _ sound grows knows => .get ?_
  have has := has.mono grows
  split
  · refine .bind (.onHeap sound (Heap.keeps_setContent sound.memory target.cell knows))
      fun _ _ sound grows _ => ?_
    exact .bind (safe_push sound (has.mono grows)) fun _ _ sound _ _ => safe_setFlags sound
  · exact .bind (safe_push sound has) fun _ _ sound _ _ => safe_setFlags sound

theorem knows_reparse (heap : Heap) (content : Content) : heap.Knows (heap.reparse content) := by
  unfold Heap.reparse Content.ofNumeral
  split <;> trivial

theorem knows_shifted {heap : Heap} {content : Content} (knows : heap.Knows content)
    (difference : Float) : heap.Knows (shifted difference content) := by
  unfold shifted
  split
  · trivial
  · exact knows

theorem knows_binary (heap : Heap) (operator : BinaryOperator) (left right : Content) :
    heap.Knows (heap.binary operator left right) := by
  cases operator with
  | add =>
    change heap.Knows (if _ then _ else _)
    split <;> trivial
  | sub | mul | div | rem | lt | gt | le | ge | eq | ne | shl | shr | bitOr | bitAnd | xor | or
  | and => trivial

theorem safe_increment (sound : machine.Sound) (difference : Float) :
    Safe Heap.Anything (increment difference) machine := by
  refine .bind (safe_pop sound) fun operand middle sound _ has => .get ?_
  have knows := knows_shifted (knows_reparse middle.heap (middle.heap.content operand.cell))
    difference
  dsimp only
  split
  · refine .bind (.onHeap sound (Heap.keeps_setContent sound.memory operand.cell knows))
      fun _ _ sound grows _ => ?_
    exact .bind (safe_pushCell sound (has.mono grows)) fun _ _ sound _ _ => safe_setFlags sound
  · exact .bind (safe_pushContent sound knows) fun _ _ sound _ _ => safe_setFlags sound

theorem safe_incrementAfter (sound : machine.Sound) (difference : Float) :
    Safe Heap.Anything (incrementAfter difference) machine := by
  refine .bind (safe_pop sound) fun operand middle sound _ _ => .get ?_
  have before := knows_reparse middle.heap (middle.heap.content operand.cell)
  dsimp only
  split
  · refine .bind (.onHeap sound (Heap.keeps_setContent sound.memory operand.cell
      (knows_shifted before difference))) fun _ _ sound grows _ => ?_
    exact .bind (safe_pushContent sound (before.mono grows)) fun _ _ sound _ _ =>
      safe_setFlags sound
  · exact .bind (safe_pushContent sound before) fun _ _ sound _ _ => safe_setFlags sound

theorem safe_negate {negation : Int32 → Content} (sound : machine.Sound)
    (knows : ∀ heap value, Heap.Knows heap (negation value)) :
    Safe Heap.Anything (negate negation) machine := by
  refine .bind (safe_pop sound) fun operand middle sound _ _ => .get ?_
  have before := knows_reparse middle.heap (middle.heap.content operand.cell)
  dsimp only
  split
  · exact .bind (safe_pushContent sound (knows _ _)) fun _ _ sound _ _ => safe_setFlags sound
  · exact .bind (safe_pushContent sound before) fun _ _ sound _ _ => safe_setFlags sound

theorem keeps_setOperands {heap : Heap} (closed : heap.Closed) (target : Content)
    (operands : List Operand) : Heap.Keeps Heap.Anything (setOperands target operands) heap := by
  induction operands generalizing heap with
  | nil => exact Heap.keeps_pure closed trivial
  | cons operand rest inductionHypothesis =>
    refine Heap.keeps_bind (Heap.keeps_copy closed operand.cell) fun cell _ closed _ has => ?_
    refine Heap.keeps_bind (Heap.keeps_setProperty closed target operand.key has)
      fun _ _ closed _ _ => inductionHypothesis closed

theorem safe_popProperties (sound : machine.Sound) (count : Nat) :
    Safe Heap.Anything (popProperties count) machine := by
  refine .get ?_
  dsimp only
  split
  · exact .malformed sound _
  · split
    · exact .raise sound _
    · have made : Heap.Keeps Heap.Has (do
          let cell ← Heap.allocateObject
          setOperands ((← get).content cell)
            (machine.operands.extract (machine.operands.size - count)).toList
          return cell) machine.heap :=
        Heap.keeps_bind (Heap.keeps_allocateObject sound.memory) fun cell _ closed _ has =>
          Heap.keeps_get (Heap.keeps_bind (keeps_setOperands closed _ _)
            fun _ _ closed grows _ => Heap.keeps_pure closed (has.mono grows))
      refine .bind (.onHeap sound made) fun cell after sound _ has => ?_
      have shrunk : Sound
          { after with operands := after.operands.shrink (after.operands.size - count) } :=
        sound.withOperands fun operand member =>
          sound.operands operand (mem_of_mem_shrink member)
      refine .bind (.modify shrunk (.refl _) trivial) fun _ _ sound grows
        (_ : Heap.Anything _ _) => ?_
      exact .bind (safe_pushCell sound (has.mono grows)) fun _ _ sound _ _ => safe_setFlags sound

theorem safe_replaceByProperty (sound : machine.Sound) (datum : Datum CellId) :
    Safe Heap.Anything (replaceByProperty datum) machine := by
  refine .bind (safe_pop sound) fun operand _ sound _ has => ?_
  refine .bind (safe_pushReceiver sound has) fun _ _ sound _ _ => ?_
  refine .bind (safe_nameOf sound datum) fun name _ sound _ _ => ?_
  refine .bind (safe_contentOf sound operand.cell) fun content _ sound _ knows => ?_
  refine .bind (.onHeap sound (Heap.keeps_getProperty sound.memory knows name))
    fun _ _ sound _ has => ?_
  exact .bind (safe_pushCell sound has) fun _ _ sound _ _ => safe_setFlags sound

theorem safe_replaceByElement (sound : machine.Sound) :
    Safe Heap.Anything replaceByElement machine := by
  refine .bind (safe_pop sound) fun index _ sound _ _ => ?_
  refine .bind (safe_pop sound) fun collection _ sound _ has => .get ?_
  refine .bind (.onHeap sound (Heap.keeps_getProperty sound.memory (sound.memory.content _) _))
    fun _ _ sound grows made => ?_
  have has := has.mono grows
  refine .bind (safe_pushCell sound made) fun _ _ sound grows _ => ?_
  exact .bind (safe_pushReceiver sound (has.mono grows)) fun _ _ sound _ _ => safe_setFlags sound

theorem safe_moveIntoArray (sound : machine.Sound) (array : ArrayId) (count : Nat) :
    Safe Heap.Anything (moveIntoArray array count) machine := by
  induction count generalizing machine with
  | zero => exact .pure sound trivial
  | succ position inductionHypothesis =>
    refine .bind (safe_pop sound) fun operand middle sound _ _ => ?_
    have moved : Heap.Keeps Heap.Anything (do
        let cell ← Heap.copy operand.cell
        Heap.assignElement array position cell) middle.heap :=
      Heap.keeps_bind (Heap.keeps_copy sound.memory operand.cell) fun cell _ closed _ has =>
        Heap.keeps_assignElement closed array position has
    exact .bind (.onHeap sound moved) fun _ _ sound _ _ => inductionHypothesis sound

theorem safe_fillAccumulator (sound : machine.Sound) (datum : Datum CellId) :
    Safe Heap.Anything (fillAccumulator datum) machine := by
  refine .get ?_
  split
  · exact .bind (safe_countOf sound datum) fun _ _ sound _ _ => safe_moveIntoArray sound _ _
  · exact .malformed sound _

theorem safe_setKey (sound : machine.Sound) (datum : Datum CellId) :
    Safe Heap.Anything (setKey datum) machine := by
  refine .bind (safe_top sound) fun operand _ sound _ has => ?_
  refine .bind (safe_nameOf sound datum) fun key last sound grows _ => ?_
  refine .modify (sound.withOperands fun other member => ?_) (.refl _) trivial
  rcases Array.mem_push.mp member with old | rfl
  · exact sound.operands other (mem_of_mem_pop old)
  · exact has.mono grows

theorem safe_popReceiver (sound : machine.Sound) : Safe Heap.Anything popReceiver machine := by
  refine .get ?_
  split
  · rename_i cell last
    refine .bind (safe_pushCell sound (sound.receivers cell (mem_of_back? last)))
      fun _ after sound _ _ => ?_
    refine .modify (sound.withReceivers fun other member => ?_) (.refl _) trivial
    exact sound.receivers other (mem_of_mem_pop member)
  · rw [if_pos sound.attached]
    exact safe_pushCell sound sound.receiver

theorem safe_applyBinary (sound : machine.Sound) (operator : BinaryOperator) :
    Safe Heap.Anything (applyBinary operator) machine := by
  refine .bind (safe_pop sound) fun _ _ sound _ _ => ?_
  refine .bind (safe_pop sound) fun _ _ sound _ _ => .get ?_
  exact .bind (safe_pushContent sound (knows_binary _ _ _ _)) fun _ _ sound _ _ =>
    safe_setFlags sound

theorem safe_executePlain {instruction : Instruction CellId} (sound : machine.Sound)
    (embedded : ∀ cell, instruction.datum.object = some cell → machine.heap.Has cell) :
    Safe Heap.Anything (executePlain instruction) machine := by
  have jumps {machine : Machine} (sound : machine.Sound) :
      Safe Heap.Anything (jump instruction) machine := .modify { sound with } (.refl _) trivial
  unfold executePlain
  dsimp only
  split
  · exact .pure sound trivial
  · exact .pure sound trivial
  · exact .bind (safe_nameOf sound _) fun _ _ sound _ _ => safe_fetch sound _
  · exact safe_store sound
  · refine .bind (safe_literal sound embedded) fun _ _ sound _ has => ?_
    exact .bind (safe_pushCell sound has) fun _ _ sound _ _ => safe_setFlags sound
  · refine .get ?_
    split
    · rename_i cell same
      exact .bind (safe_pushCell sound (sound.accumulator cell same)) fun _ _ sound _ _ =>
        safe_setFlags sound
    · exact .malformed sound _
  · exact .bind (safe_countOf sound _) fun _ _ sound _ _ => safe_popProperties sound _
  · exact safe_replaceByProperty sound _
  · exact safe_replaceByElement sound
  · refine .bind (safe_countOf sound _) fun size _ sound _ _ => ?_
    refine .bind (.onHeap sound (Heap.keeps_allocateArray sound.memory size))
      fun _ _ sound _ has => ?_
    exact .modify (sound.withAccumulator has) (.refl _) trivial
  · exact .bind (safe_nameOf sound _) fun _ _ sound _ _ => safe_declare sound _
  · exact safe_fillAccumulator sound _
  · exact safe_setKey sound _
  · exact jumps sound
  · refine .get ?_
    split
    · exact jumps sound
    · exact .pure sound trivial
  · refine .get ?_
    split
    · exact jumps sound
    · exact .pure sound trivial
  · exact safe_ret sound
  · exact .modify { sound with } (.refl _) trivial
  · exact .modify { sound with } (.refl _) trivial
  · exact safe_popReceiver sound
  · exact safe_increment sound _
  · exact safe_increment sound _
  · exact safe_incrementAfter sound _
  · exact safe_incrementAfter sound _
  · exact safe_negate sound fun _ _ => trivial
  · exact safe_negate sound fun _ _ => trivial
  · split
    · exact safe_applyBinary sound _
    · exact .malformed sound _

theorem safe_execute {instruction : Instruction CellId} (sound : machine.Sound)
    (embedded : ∀ cell, instruction.datum.object = some cell → machine.heap.Has cell) :
    Safe Heap.Anything (execute instruction) machine := by
  unfold execute
  split
  · exact .bind (safe_countOf sound _) fun _ _ sound _ _ => safe_call sound _
  · exact .bind (safe_executePlain sound embedded) fun _ _ sound _ _ => .pure sound trivial

/-! ### Moves -/

theorem safe_unwind (sound : machine.Sound) (fault : ScriptFault) (pending : List Activation) :
    Safe Heap.Anything (unwind fault pending) machine := by
  induction pending generalizing machine fault with
  | nil => exact safe_throw sound fun _ => Fault.noConfusion
  | cons activation pending inductionHypothesis =>
    unfold unwind
    split
    · exact safe_throw sound fun _ => Fault.noConfusion
    · exact .bind (safe_leaveFrame sound) fun _ _ sound _ _ =>
        .get (inductionHypothesis sound _)

theorem safe_stepOver (sound : machine.Sound) : Safe Heap.Anything stepOver machine := by
  refine .modify ?_ ?_ trivial
  · split
    · exact sound
    · exact { sound with }
  · split
    · exact .refl _
    · exact .refl _

theorem safe_executeNext (sound : machine.Sound) (pending : List Activation) :
    Safe Heap.Anything (executeNext pending) machine := by
  refine .get ?_
  split
  · exact .malformed sound _
  · rename_i instruction found
    have member : instruction ∈ machine.code := by
      unfold instruction? instructionAt? at found
      split at found
      · exact Array.mem_of_getElem? found
      · cases found
    have executed : Safe Heap.Anything
        (Sum.inl <$> execute instruction : Action (Flow ⊕ ScriptFault)) machine :=
      .bind (safe_execute sound (sound.code instruction member)) fun _ _ sound _ _ =>
        .pure sound trivial
    refine .bind (executed.tryCatch fun fault _ sound _ other => ?_) fun flow _ sound _ _ => ?_
    · split
      · exact .pure sound trivial
      · exact safe_throw sound other
    · split
      · exact .bind (safe_stepOver sound) fun _ _ sound _ _ => .pure sound trivial
      · exact .pure sound trivial
      · exact .get (safe_unwind sound _ _)

end Machine

namespace Configuration

open Machine

/-- A function that the host has entered returns, and there are fewer receivers than it has
found. -/
def Overdrawn (configuration : Configuration) : Prop :=
  ∃ activation pending,
    configuration.machine.nextMove configuration.pending = .resume activation pending ∧
      configuration.machine.operands ≠ #[] ∧
      configuration.machine.receivers.size < activation.receiverMark

end Configuration

namespace Machine

variable {machine : Machine}

theorem conclude_of_none {activation : Activation} (topmost : machine.operands.back? = none) :
    ∃ place, conclude activation machine =
      .error (.malformed place .operandUnderflow) { machine with current := activation.pc } :=
  ⟨_, (modify_bind _ _ _).trans (bind_of_error (pop_of_none (by exact topmost)))⟩

theorem conclude_of_some {activation : Activation} {operand : Operand}
    (topmost : machine.operands.back? = some operand) :
    conclude activation machine =
      if machine.receivers.size < activation.receiverMark then
        .error (.breakdown .receiversConsumed)
          { machine with current := activation.pc, operands := machine.operands.pop }
      else .ok operand.cell (machine.concluded activation) := by
  refine (modify_bind _ _ _).trans ((bind_of_ok (pop_of_some (by exact topmost))).trans ?_)
  refine (get_bind _ _).trans ?_
  dsimp only
  split <;> rfl

theorem Sound.popped (sound : machine.Sound) :
    Sound { machine with operands := machine.operands.pop } :=
  sound.withOperands fun other member => sound.operands other (mem_of_mem_pop member)

theorem safe_conclude {activation : Activation} (sound : machine.Sound)
    (enough : machine.operands ≠ #[] → activation.receiverMark ≤ machine.receivers.size) :
    Safe Heap.Has (conclude activation) machine := by
  unfold Safe
  cases topmost : machine.operands.back? with
  | none =>
    obtain ⟨place, ends⟩ : ∃ place, conclude activation machine = _ := conclude_of_none topmost
    rw [ends]
    exact ⟨{ sound with }, .refl _, fun _ => Fault.noConfusion⟩
  | some operand =>
    have present := mem_of_back? topmost
    have room : ¬ machine.receivers.size < activation.receiverMark :=
      Nat.not_lt.mpr (enough (Array.ne_empty_of_mem present))
    have shrunk : Sound (machine.concluded activation) :=
      { sound.popped with
        receivers := fun cell member => sound.receivers cell (mem_of_mem_shrink member) }
    rw [conclude_of_some topmost, if_neg room]
    exact ⟨shrunk, .refl _, sound.operands operand present⟩

/-- A move is `Safe` unless the configuration is `Overdrawn`. -/
theorem safe_advance {pending : List Activation} (sound : machine.Sound)
    (enough : ¬ Configuration.Overdrawn ⟨machine, pending⟩) :
    Safe Heap.Anything (advance pending) machine := by
  refine .get ?_
  cases move : machine.nextMove pending with
  | finish => exact .pure sound trivial
  | leave => exact safe_unwind sound _ _
  | resume activation rest =>
    have room : machine.operands ≠ #[] → activation.receiverMark ≤ machine.receivers.size :=
      fun some => Nat.le_of_not_lt fun short => enough ⟨activation, rest, move, some, short⟩
    refine .bind (safe_conclude sound room) fun result _ sound _ has => ?_
    split
    · exact .pure sound trivial
    · exact .bind (safe_finishNative sound _ has) fun _ _ sound _ _ =>
        .bind (safe_stepOver sound) fun _ _ sound _ _ => .pure sound trivial
  | execute => exact safe_executeNext sound pending

/-- A configuration that is `Overdrawn` is where a run breaks off. -/
theorem advance_of_overdrawn {pending : List Activation} (sound : machine.Sound)
    (overdrawn : Configuration.Overdrawn ⟨machine, pending⟩) :
    ∃ final, final.Sound ∧
      advance pending machine = .error (.breakdown .receiversConsumed) final := by
  obtain ⟨activation, rest, move, some, short⟩ := overdrawn
  cases topmost : machine.operands.back? with
  | none => exact absurd (Array.back?_eq_none_iff.mp topmost) some
  | some operand =>
    have ends : conclude activation machine = _ := (conclude_of_some topmost).trans (if_pos short)
    have resumes : advance pending machine = resume activation rest machine := by
      refine (get_bind _ _).trans ?_
      rw [show machine.nextMove pending = _ from move]
    have left : Sound { machine with
        current := activation.pc, operands := machine.operands.pop } := { sound.popped with }
    exact ⟨_, left, resumes.trans (bind_of_error ends)⟩

end Machine

/-! ### Runs -/

namespace Configuration

open Machine

theorem Moves.unique {before after other : Configuration} (moves : before.Moves after)
    (also : before.Moves other) : after = other := by
  obtain ⟨machine, pending⟩ := after
  obtain ⟨otherMachine, otherPending⟩ := other
  cases (show EStateM.Result.ok _ _ = EStateM.Result.ok _ _ from moves.symm.trans also)
  rfl

theorem Moves.sound {before after : Configuration} (moves : before.Moves after)
    (sound : before.machine.Sound) : after.machine.Sound := by
  by_cases overdrawn : before.Overdrawn
  · obtain ⟨_, _, ends⟩ := advance_of_overdrawn sound overdrawn
    cases ends.symm.trans moves
  · exact ((safe_advance sound overdrawn).of_ok moves).1

/-- Every configuration that a run passes is `Sound`. -/
theorem Run.sound {first last : Configuration} {passed : List Configuration}
    (run : Run first passed last) (sound : first.machine.Sound) : last.machine.Sound := by
  induction run with
  | done => exact sound
  | move moves _ inductionHypothesis => exact inductionHypothesis (moves.sound sound)

end Configuration

namespace Machine

open ScriptEngine.Configuration

/-- A run that starts outside of every activation comes to an `Overdrawn` configuration in so many
moves. -/
def Overdraws (fuel : Nat) (configuration : Configuration) : Prop :=
  ∃ passed last, Run configuration passed last ∧ passed.length < fuel ∧ last.Overdrawn

/-- A run that comes to a configuration that `Overdraws` later on goes on from this one. -/
theorem Overdraws.exists_moves {fuel : Nat} {first : Configuration}
    (overdraws : Overdraws fuel first) (enough : ¬ first.Overdrawn) :
    ∃ second, first.Moves second := by
  obtain ⟨_, _, run, _, overdrawn⟩ := overdraws
  cases run with
  | done => exact absurd overdrawn enough
  | @move _ second _ _ moves _ => exact ⟨second, moves⟩

theorem overdraws_of_moves {fuel : Nat} {first second : Configuration}
    (enough : ¬ first.Overdrawn) (moves : first.Moves second) :
    Overdraws (fuel + 1) first ↔ Overdraws fuel second := by
  constructor
  · rintro ⟨_, _, run, within, overdrawn⟩
    cases run with
    | done => exact absurd overdrawn enough
    | move other rest =>
      obtain rfl := moves.unique other
      exact ⟨_, _, rest, Nat.lt_of_succ_lt_succ within, overdrawn⟩
  · rintro ⟨_, _, run, within, overdrawn⟩
    exact ⟨_, _, .move moves run, Nat.succ_lt_succ within, overdrawn⟩

/-- A `loop` leaves a `Sound` machine, and breaks off exactly where it comes to an `Overdrawn`
configuration. -/
theorem Sound.loop {View : Type} {observe : Machine → View → View} {fuel : Nat}
    {pending : List Activation} {view last : View} {machine final : Machine} {outcome : Outcome}
    (sound : machine.Sound)
    (ends : Machine.loop observe fuel pending view machine = (outcome, last, final)) :
    final.Sound ∧ ∀ breakdown, outcome = .failed (.breakdown breakdown) ↔
      breakdown = .receiversConsumed ∧ Overdraws fuel ⟨machine, pending⟩ := by
  induction fuel generalizing pending view machine with
  | zero =>
    cases ends
    refine ⟨sound, fun breakdown => ⟨?_, ?_⟩⟩
    · rintro ⟨⟩
    · rintro ⟨_, _, _, _, impossible, _⟩
      exact absurd impossible (Nat.not_lt_zero _)
  | succ fuel inductionHypothesis =>
    rw [Machine.loop] at ends
    by_cases overdrawn : Overdrawn ⟨machine, pending⟩
    · obtain ⟨broken, soundAfter, breaks⟩ := advance_of_overdrawn sound overdrawn
      rw [breaks] at ends
      cases ends
      refine ⟨soundAfter, fun breakdown => ⟨?_, ?_⟩⟩
      · rintro ⟨⟩
        exact ⟨rfl, [], _, .done _, Nat.zero_lt_succ _, overdrawn⟩
      · rintro ⟨rfl, _⟩
        rfl
    · have safe := safe_advance sound overdrawn
      cases advanced : advance pending machine with
      | ok progress middle =>
        obtain ⟨soundAfter, _, _⟩ := safe.of_ok advanced
        rw [advanced] at ends
        cases progress with
        | running later =>
          obtain ⟨soundFinal, breaks⟩ := inductionHypothesis soundAfter ends
          have moves : Moves ⟨machine, pending⟩ ⟨middle, later⟩ := advanced
          refine ⟨soundFinal, fun breakdown => ?_⟩
          refine (breaks breakdown).trans (and_congr_right fun _ => ?_)
          exact (overdraws_of_moves overdrawn moves).symm
        | finished result =>
          cases ends
          refine ⟨soundAfter, fun breakdown => ⟨?_, ?_⟩⟩
          · rintro ⟨⟩
          · rintro ⟨_, overdraws⟩
            obtain ⟨_, goesOn⟩ := overdraws.exists_moves overdrawn
            cases goesOn.symm.trans advanced
      | error fault middle =>
        obtain ⟨soundAfter, _, other⟩ := safe.of_error advanced
        rw [advanced] at ends
        cases ends
        refine ⟨soundAfter, fun breakdown => ⟨?_, ?_⟩⟩
        · rintro ⟨⟩
          exact absurd rfl (other breakdown)
        · rintro ⟨_, overdraws⟩
          obtain ⟨_, goesOn⟩ := overdraws.exists_moves overdrawn
          cases goesOn.symm.trans advanced

/-- A `run` breaks off exactly where its `loop` does. -/
theorem Sound.run {View : Type} {observe : Machine → View → View} {fuel : Nat} {view last : View}
    {machine final : Machine} {outcome : Outcome} (sound : machine.Sound)
    (ends : Machine.run observe fuel view machine = (outcome, last, final)) :
    final.Sound ∧ ∀ breakdown, outcome = .failed (.breakdown breakdown) ↔
      breakdown = .receiversConsumed ∧ Overdraws fuel ⟨machine, []⟩ := by
  unfold Machine.run at ends
  rcases looped : Machine.loop observe fuel [] view machine with ⟨reached, shown, left⟩
  obtain ⟨soundLeft, breaks⟩ := sound.loop looped
  rw [looped] at ends
  split at ends
  · rename_i fault view middle same
    cases same
    have never : ∀ breakdown, ¬ (breakdown = Breakdown.receiversConsumed ∧
        Overdraws fuel ⟨machine, []⟩) := fun breakdown overdraws =>
      nomatch (breaks breakdown).mpr overdraws
    split at ends
    · cases ends
      exact ⟨{ soundLeft with }, fun breakdown =>
        ⟨fun impossible => (nomatch impossible), fun overdraws => absurd overdraws (never _)⟩⟩
    · cases ends
      exact ⟨soundLeft, breaks⟩
  · cases ends
    exact ⟨soundLeft, breaks⟩

/-! ### Between runs -/

namespace Sound

variable {machine : Machine}

theorem new (limit : Int64) : (Machine.new limit).Sound := by
  have empty : Heap.Closed {} := by
    refine ⟨?_, ?_, ?_, ?_, ?_⟩ <;> exact fun _ member => absurd member (Array.not_mem_empty _)
  have made := Heap.keeps_allocateObject empty
  refine ⟨rfl, made.closed, ?_, ?_, ?_, Heap.hasAll_empty _, ?_, made.result, ?_⟩
  · exact fun _ member => absurd member (Array.not_mem_empty _)
  · exact fun cell member => Array.mem_singleton.mp member ▸ made.result
  · exact fun cell impossible => nomatch impossible
  · exact fun _ member => absurd member List.not_mem_nil
  · exact fun _ member => absurd member (Array.not_mem_empty _)

theorem defineCell {cell : Cell} (sound : machine.Sound) (name : Text)
    (knows : machine.heap.Knows cell.content) : (machine.defineCell name cell).Sound := by
  have made := Heap.keeps_allocate sound.memory knows
  have grown := sound.grown made.closed made.grows
  exact { grown with globals := grown.globals.insert made.result name }

theorem defineNative (sound : machine.Sound) (name : Text) (constructs : ConstructKind)
    (native : Native) : (machine.defineNative name constructs native).Sound := by
  have made : Heap.Keeps _ (Heap.newFunction { name, native := some native, constructs })
      machine.heap := Heap.keeps_newFunction sound.memory (Heap.hasAll_empty _)
  exact (sound.grown made.closed made.grows).defineCell name made.result

theorem install (sound : machine.Sound) : machine.install.Sound := by
  unfold Machine.install
  iterate 7 refine defineNative ?_ _ _ _
  refine defineCell (defineCell (defineCell sound _ ?_) _ ?_) _ ?_
  all_goals trivial

theorem reset (sound : machine.Sound) : machine.reset.Sound := by
  have closed := sound.closeScopes machine.frames.size
  have scopes : machine.reset.scopes =
      { machine.scopes with opened := machine.scopes.opened.drop machine.frames.size } :=
    if_pos sound.attached
  refine ⟨sound.attached, sound.memory, ?_, ?_, ?_, ?_, ?_, ?_, sound.code⟩
  · exact fun _ member => absurd member (Array.not_mem_empty _)
  · exact fun _ member => absurd member (Array.not_mem_empty _)
  · exact fun _ impossible => nomatch impossible
  · rw [scopes]
    exact closed.globals
  · rw [scopes]
    exact closed.opened
  · rw [scopes]
    exact closed.receiver

theorem takeResult (sound : machine.Sound) :
    machine.takeResult.2.Sound ∧ machine.takeResult.2.heap.Has machine.takeResult.1 := by
  unfold Machine.takeResult
  split
  · rename_i operand last
    exact ⟨sound.popped, sound.operands operand (mem_of_back? last)⟩
  · have made : Heap.Keeps Heap.Has (Heap.allocateContent .undefined) machine.heap :=
      Heap.keeps_allocateContent sound.memory trivial
    exact ⟨sound.grown made.closed made.grows, made.result⟩

theorem keeps_allocateDeclarations {heap : Heap} (closed : heap.Closed)
    (declarations : List Declaration) :
    Heap.Keeps (fun after cells => cells.length = declarations.length ∧ HasCells after cells)
      (allocateDeclarations declarations) heap := by
  unfold allocateDeclarations
  induction declarations generalizing heap with
  | nil => exact Heap.keeps_pure closed ⟨rfl, fun _ member => absurd member List.not_mem_nil⟩
  | cons declaration rest inductionHypothesis =>
    rw [List.mapM_cons]
    refine Heap.keeps_bind (Heap.keeps_allocateFunction closed (Heap.hasAll_empty _))
      fun cell _ closed _ made => ?_
    refine Heap.keeps_bind (inductionHypothesis closed) fun cells _ closed grows others => ?_
    refine Heap.keeps_pure closed ⟨congrArg Nat.succ others.1, fun other member => ?_⟩
    rcases List.mem_cons.mp member with rfl | later
    · exact made.mono grows
    · exact others.2 other later

theorem load {program : Program} (sound : machine.Sound) (complete : program.Complete) :
    (machine.load program).Sound := by
  have made := keeps_allocateDeclarations sound.memory program.items.toList
  have grown := sound.grown made.closed made.grows
  refine { grown with code := fun instruction member cell embedded => ?_ }
  obtain ⟨written, listed, rfl⟩ := Array.mem_map.mp member
  obtain ⟨index, refers, rfl⟩ := Option.map_eq_some_iff.mp embedded
  obtain ⟨length, has⟩ := made.result
  have room : index < (allocateDeclarations program.items.toList machine.heap).1.toArray.size := by
    rw [List.size_toArray, length, Array.length_toList]
    exact complete written listed index refers
  change (machine.load program).heap.Has (Array.getD
    (allocateDeclarations program.items.toList machine.heap).1.toArray index default)
  rw [Array.getD_eq_getD_getElem?, Array.getElem?_eq_getElem room]
  exact has _ (List.mem_toArray.mp (Array.getElem_mem room))

end Sound

end Machine

/-! ### Executions -/

namespace Session

open Machine

/-- The machines that preload programs start to run on, as far as they get. -/
def preloadStarts (fuel : Nat) : List (Except LoadError Program) → Session → List Machine
  | [], _ => []
  | .error _ :: _, _ => []
  | .ok program :: rest, session =>
    session.machine.load program ::
      match run fuel (·.load program) session with
      | (_, some _) => []
      | (session, none) =>
        preloadStarts fuel rest { session with machine := session.machine.reset }

/-- The machines that the runs of an execution start on: those of the preload programs if they
have not been run before, and that of the program itself. -/
def starts (fuel : Nat) (preload : List (Except LoadError Program)) (load : Machine → Machine)
    (session : Session) : List Machine :=
  (if session.preloaded then [] else preloadStarts fuel preload { session with preloaded := true })
    ++ match session.prepare fuel preload with
      | (_, some _) => []
      | (session, none) => [load session.machine]

/-- A run that has stopped has broken off if it is overdrawn, and otherwise not. -/
def Reports (overdraws : Prop) : Option Stop → Prop
  | some (.broken breakdown) => breakdown = .receiversConsumed ∧ overdraws
  | some (.error error) => (∀ breakdown, error ≠ .fault (.breakdown breakdown)) ∧ ¬ overdraws
  | some .outOfFuel | none => ¬ overdraws

theorem Reports.congr {overdraws other : Prop} {stop : Option Stop}
    (reports : Reports overdraws stop) (same : overdraws ↔ other) : Reports other stop :=
  propext same ▸ reports

variable {session after : Session} {fuel : Nat} {stop : Option Stop}

theorem sound_run {load : Machine → Machine} (sound : (load session.machine).Sound)
    (ends : run fuel load session = (after, stop)) :
    after.machine.Sound ∧ Reports (Overdraws fuel ⟨load session.machine, []⟩) stop := by
  unfold run at ends
  rcases ran : Machine.run (observe session.traced) fuel session.trace (load session.machine) with
    ⟨outcome, trace, final⟩
  obtain ⟨soundFinal, breaks⟩ := sound.run ran
  have never (other : ∀ breakdown, outcome ≠ .failed (.breakdown breakdown)) :
      ¬ Overdraws fuel ⟨load session.machine, []⟩ :=
    fun overdraws => other _ ((breaks .receiversConsumed).mpr ⟨rfl, overdraws⟩)
  dsimp only at ends
  rw [ran] at ends
  cases outcome with
  | finished result =>
    cases ends
    exact ⟨soundFinal, never fun _ => Outcome.noConfusion⟩
  | outOfFuel =>
    cases ends
    exact ⟨soundFinal, never fun _ => Outcome.noConfusion⟩
  | failed fault =>
    cases fault with
    | breakdown breakdown =>
      cases ends
      exact ⟨soundFinal, (breaks breakdown).mp rfl⟩
    | script fault =>
      cases ends
      exact ⟨soundFinal, by rintro _ ⟨⟩, never (by rintro _ ⟨⟩)⟩
    | malformed place malformation =>
      cases ends
      exact ⟨soundFinal, by rintro _ ⟨⟩, never (by rintro _ ⟨⟩)⟩

/-- One of some machines comes to an overdrawn configuration. -/
def SomeOverdraws (fuel : Nat) (starts : List Machine) : Prop :=
  ∃ start ∈ starts, Overdraws fuel ⟨start, []⟩

theorem not_someOverdraws_nil : ¬ SomeOverdraws fuel [] := by
  rintro ⟨_, member, _⟩
  exact List.not_mem_nil member

theorem someOverdraws_cons {start : Machine} {starts : List Machine} :
    SomeOverdraws fuel (start :: starts) ↔
      Overdraws fuel ⟨start, []⟩ ∨ SomeOverdraws fuel starts := by
  unfold SomeOverdraws
  simp only [List.mem_cons, exists_eq_or_imp]

theorem someOverdraws_append {first second : List Machine} :
    SomeOverdraws fuel (first ++ second) ↔
      SomeOverdraws fuel first ∨ SomeOverdraws fuel second := by
  unfold SomeOverdraws
  simp only [List.mem_append, or_and_right, exists_or]

theorem sound_runPreload {preload : List (Except LoadError Program)}
    (complete : ∀ program, .ok program ∈ preload → program.Complete)
    (sound : session.machine.Sound) (ends : runPreload fuel preload session = (after, stop)) :
    after.machine.Sound ∧ Reports (SomeOverdraws fuel (preloadStarts fuel preload session)) stop ∧
      ∀ start ∈ preloadStarts fuel preload session, start.Sound := by
  induction preload generalizing session with
  | nil =>
    cases ends
    exact ⟨sound, not_someOverdraws_nil, fun _ member => absurd member List.not_mem_nil⟩
  | cons loaded rest inductionHypothesis =>
    cases loaded with
    | error error =>
      cases ends
      exact ⟨sound, ⟨fun _ => ExecutionError.noConfusion, not_someOverdraws_nil⟩,
        fun _ member => absurd member List.not_mem_nil⟩
    | ok program =>
      have loadedSound : (session.machine.load program).Sound :=
        sound.load (complete program (List.mem_cons_self ..))
      rw [runPreload] at ends
      rw [preloadStarts]
      rcases ran : run fuel (·.load program) session with ⟨middle, stopped⟩
      obtain ⟨middleSound, reports⟩ := sound_run loadedSound ran
      rw [ran] at ends
      cases stopped with
      | some reason =>
        cases ends
        refine ⟨middleSound, reports.congr ?_, fun start member => ?_⟩
        · rw [someOverdraws_cons]
          exact (or_iff_left not_someOverdraws_nil).symm
        · exact List.mem_singleton.mp member ▸ loadedSound
      | none =>
        have others : ∀ program, .ok program ∈ rest → program.Complete :=
          fun program member => complete program (List.mem_cons_of_mem _ member)
        obtain ⟨afterSound, later, starts⟩ := inductionHypothesis others middleSound.reset ends
        refine ⟨afterSound, later.congr ?_, fun start member => ?_⟩
        · rw [someOverdraws_cons]
          exact (or_iff_right reports).symm
        · rcases List.mem_cons.mp member with rfl | member
          · exact loadedSound
          · exact starts start member

/-- An execution that was `stopped` reports what has stopped it. -/
theorem sound_stopped {tapOnFault : Bool} {reason : Stop} (sound : session.machine.Sound) :
    (stopped tapOnFault session reason).1.machine.Sound := by
  cases reason with
  | broken breakdown => exact sound
  | outOfFuel => exact sound
  | error error =>
    have same : (tapFault tapOnFault session).machine = session.machine := by
      unfold tapFault
      split <;> rfl
    change (tapFault tapOnFault session).machine.reset.Sound
    rw [same]
    exact sound.reset

end Session

/-- An execution has broken off over consumed receivers if one of its runs is overdrawn; otherwise
it gives a value that has been made or an error, or it has not come to its end. -/
def Execution.Reports (overdraws : Prop) (heap : Heap) : Execution → Prop
  | .value cell => ¬ overdraws ∧ heap.Has cell
  | .failed error => ¬ overdraws ∧ ∀ breakdown, error ≠ .fault (.breakdown breakdown)
  | .broken breakdown => overdraws ∧ breakdown = .receiversConsumed
  | .outOfFuel => ¬ overdraws

namespace Session

open Machine

variable {session after : Session} {fuel : Nat}

theorem reports_stopped {overdraws : Prop} {tapOnFault : Bool} {reason : Stop} {heap : Heap}
    (reports : Reports overdraws (some reason)) :
    (stopped tapOnFault session reason).2.Reports overdraws heap := by
  cases reason with
  | broken breakdown => exact reports.symm
  | outOfFuel => exact reports
  | error error => exact reports.symm

/-- Preparing a session runs the preload programs, if they have not been run before: it leaves a
`Sound` machine, and has broken off exactly if one of their runs `Overdraws`. -/
theorem sound_prepare {preload : List (Except LoadError Program)} {stop : Option Stop}
    (complete : ∀ program, .ok program ∈ preload → program.Complete)
    (sound : session.machine.Sound) (prepared : session.prepare fuel preload = (after, stop)) :
    ∃ before, before = (if session.preloaded then []
        else preloadStarts fuel preload { session with preloaded := true }) ∧
      after.machine.Sound ∧ Reports (SomeOverdraws fuel before) stop ∧
        ∀ start ∈ before, start.Sound := by
  refine ⟨_, rfl, ?_⟩
  unfold prepare at prepared
  split at prepared
  · case isTrue done =>
    cases prepared
    rw [if_pos done]
    exact ⟨sound, not_someOverdraws_nil, fun _ member => absurd member List.not_mem_nil⟩
  · case isFalse fresh =>
    rw [if_neg fresh]
    exact sound_runPreload complete sound prepared

theorem someOverdraws_append_singleton {before : List Machine} {start : Machine}
    (never : ¬ SomeOverdraws fuel before) :
    SomeOverdraws fuel (before ++ [start]) ↔ Overdraws fuel ⟨start, []⟩ := by
  rw [someOverdraws_append, someOverdraws_cons]
  exact (or_iff_right never).trans (or_iff_left not_someOverdraws_nil)

theorem sound_executeLoaded {tapOnFault : Bool} {preload : List (Except LoadError Program)}
    {load : Machine → Machine} {execution : Execution}
    (complete : ∀ program, .ok program ∈ preload → program.Complete)
    (loads : (session.prepare fuel preload).1.machine.Sound →
      (load (session.prepare fuel preload).1.machine).Sound)
    (sound : session.machine.Sound)
    (ends : executeLoaded fuel tapOnFault preload load session = (after, execution)) :
    after.machine.Sound ∧
      execution.Reports (SomeOverdraws fuel (starts fuel preload load session))
        after.machine.heap ∧
      ∀ start ∈ starts fuel preload load session, start.Sound := by
  unfold executeLoaded at ends
  unfold starts
  rcases prepared : session.prepare fuel preload with ⟨middle, stop⟩
  rw [prepared] at loads ends
  obtain ⟨before, same, middleSound, reports, startsSound⟩ :=
    sound_prepare complete sound prepared
  rw [← same]
  cases stop with
  | some reason =>
    obtain rfl : after = _ := congrArg Prod.fst ends.symm
    obtain rfl : execution = _ := congrArg Prod.snd ends.symm
    rw [List.append_nil]
    exact ⟨sound_stopped middleSound, reports_stopped reports, startsSound⟩
  | none =>
    have loadedSound := loads middleSound
    have last := @someOverdraws_append_singleton fuel before (load middle.machine) reports
    have allSound : ∀ start ∈ before ++ [load middle.machine], start.Sound := by
      intro start member
      rcases List.mem_append.mp member with earlier | this
      · exact startsSound start earlier
      · exact List.mem_singleton.mp this ▸ loadedSound
    dsimp only at ends ⊢
    rcases ran : run fuel load middle with ⟨reached, stop⟩
    obtain ⟨reachedSound, reports⟩ := sound_run loadedSound ran
    rw [ran] at ends
    cases stop with
    | some reason =>
      obtain rfl : after = _ := congrArg Prod.fst ends.symm
      obtain rfl : execution = _ := congrArg Prod.snd ends.symm
      exact ⟨sound_stopped reachedSound, reports_stopped (reports.congr last.symm), allSound⟩
    | none =>
      cases ends
      obtain ⟨resultSound, has⟩ := reachedSound.takeResult
      exact ⟨resultSound, ⟨fun overdraws => reports (last.mp overdraws), has⟩, allSound⟩

end Session

/-! ### Executions of a host -/

namespace Host

open Machine

/-- What a host can load onto the machine of a session: a program that is `Accepted`, or
instructions that are `InMemory`, as those of a program that was executed before. -/
inductive Loadable (session : Session) : (Machine → Machine) → Prop where
  | program {program : Program} (accepted : program.Accepted) : Loadable session (·.load program)
  | placed {placement : Placement} (placed : placement.InMemory session.machine.heap) :
    Loadable session (·.loadPlaced placement)

/-- The sessions that a host reaches by executing what is `Loadable`, one after another on a new
machine, however each execution has ended. -/
inductive Executed (host : Host) : Session → Prop where
  | new : Executed host host.newSession
  | execute {session : Session} {load : Machine → Machine} (executed : Executed host session)
    (loadable : Loadable session load) : Executed host (host.executeLoaded load session).1

/-- The machines that the runs of an execution start on. -/
def starts (host : Host) (load : Machine → Machine) (session : Session) : List Machine :=
  session.starts host.fuel (host.settings.preload.map host.load) load

theorem accepted_preload (host : Host) {program : Program}
    (member : .ok program ∈ host.settings.preload.map host.load) : program.Accepted := by
  obtain ⟨path, _, loaded⟩ := List.mem_map.mp member
  exact accepted_of_loadProgram loaded

/-- What is `InMemory` before the preload programs run is there behind them. -/
theorem inMemory_prepare (host : Host) {placement : Placement} {session : Session}
    (placed : placement.InMemory session.machine.heap) :
    placement.InMemory
      (session.prepare host.fuel (host.settings.preload.map host.load)).1.machine.heap :=
  Session.holds_prepare (persists_inMemory placement) _
    (fun program _ _ earlier => inMemory_load program earlier) placed

theorem Loadable.sound {host : Host} {session : Session} {load : Machine → Machine}
    (loadable : Loadable session load)
    (sound : (session.prepare host.fuel
      (host.settings.preload.map host.load)).1.machine.Sound) :
    (load (session.prepare host.fuel
      (host.settings.preload.map host.load)).1.machine).Sound := by
  cases loadable with
  | program accepted => exact sound.load accepted.complete
  | placed placed => exact { sound with code := host.inMemory_prepare placed }

theorem sound_execute {host : Host} {load : Machine → Machine} {session after : Session}
    {execution : Execution} (sound : session.machine.Sound) (loadable : Loadable session load)
    (ends : host.executeLoaded load session = (after, execution)) :
    after.machine.Sound ∧
      execution.Reports (Session.SomeOverdraws host.fuel (host.starts load session))
        after.machine.heap ∧
      ∀ start ∈ host.starts load session, start.Sound :=
  Session.sound_executeLoaded (fun _ member => (host.accepted_preload member).complete)
    loadable.sound sound ends

theorem Executed.sound {host : Host} {session : Session} (executed : host.Executed session) :
    session.machine.Sound := by
  induction executed with
  | new => exact (Sound.new host.settings.frameLimit).install
  | execute _ loadable inductionHypothesis =>
    exact (sound_execute inductionHypothesis loadable rfl).1

/-- Whatever was executed on a machine before, `Host.Executed`, an execution that comes to its end
`Execution.Reports` a value or an error, unless one of its runs, which start on the machines of
`Host.starts`, comes to an `Overdrawn` configuration, and then it has broken off. No configuration
of its runs has a reference that leads nowhere, so that its machine is `Machine.Sound`, and neither
has the machine that it leaves. -/
theorem execute_reports {host : Host} {session after : Session} {load : Machine → Machine}
    {execution : Execution} (executed : host.Executed session) (loadable : Loadable session load)
    (ends : host.executeLoaded load session = (after, execution)) :
    execution.Reports
        (∃ start ∈ host.starts load session, ∃ passed last,
          Configuration.Run ⟨start, []⟩ passed last ∧ passed.length < host.fuel ∧ last.Overdrawn)
        after.machine.heap ∧
      (∀ start ∈ host.starts load session, ∀ passed last,
        Configuration.Run ⟨start, []⟩ passed last → last.machine.Sound) ∧
      after.machine.Sound := by
  obtain ⟨sound, reports, starts⟩ := sound_execute executed.sound loadable ends
  exact ⟨reports, fun start member _ _ run => run.sound (starts start member), sound⟩

theorem accepted_leavingProgram : leavingProgram.Accepted := by
  refine .inl ⟨".entry start\nf: leave\nstart: fetch invoke\npushim\npush func f() @f\ncall 1", ?_⟩
  decide +kernel

theorem accepted_consumingProgram : consumingProgram.Accepted := by
  refine .inl ⟨Text.ofString ".entry start\nf: pushthis\npushthis\nret\nstart: fetch invoke\n" ++
    Text.ofString "pushim\npush func f() @f\ncall 1", ?_⟩
  decide +kernel

/-- An execution on a machine of the `sampleHost` that an earlier one has left broken still gives a
value. -/
theorem execute_reports_afterBreakdown :
    (sampleHost.execute consumingProgram sampleHost.newSession).2 = .broken .receiversConsumed ∧
      ∃ after cell, sampleHost.execute leavingProgram
        (sampleHost.execute consumingProgram sampleHost.newSession).1 = (after, .value cell) ∧
        after.machine.heap.Has cell ∧ after.machine.Sound := by
  refine ⟨by decide +kernel, ?_⟩
  generalize isSession :
    (sampleHost.execute consumingProgram sampleHost.newSession).1 = session
  have executed : sampleHost.Executed session :=
    isSession ▸ .execute .new (.program accepted_consumingProgram)
  have returned : (sampleHost.execute leavingProgram session).2 = .value ⟨16⟩ := by
    rw [← isSession]
    decide +kernel
  rcases isEnd : sampleHost.execute leavingProgram session with ⟨after, execution⟩
  rw [isEnd] at returned
  cases returned
  obtain ⟨⟨-, has⟩, -, sound⟩ := execute_reports executed (.program accepted_leavingProgram) isEnd
  exact ⟨after, _, rfl, has, sound⟩

/-- The program `consumingProgram`, which takes the receivers of its caller, is accepted, and the
machine breaks down on it instead of giving a value or an error. -/
theorem execute_breaksDown :
    consumingProgram.Accepted ∧ sampleHost.Executed sampleHost.newSession ∧
      (sampleHost.execute consumingProgram sampleHost.newSession).2 =
        .broken .receiversConsumed :=
  ⟨accepted_consumingProgram, .new, by decide +kernel⟩

end Host

end ScriptEngine
