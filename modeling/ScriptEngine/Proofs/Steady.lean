/-
This file is about what instructions and native functions leave alone however they end: the program
counter, and the mark of a constructor call. Only the instructions that jump, call, return or set
the mark do otherwise. A script fault is therefore raised where the program counter points at the
instruction that fails, and it has passed no place yet when it comes out of the instruction.
-/

import ScriptEngine.Proofs.Plain

namespace ScriptEngine

/-- An opcode whose instruction moves neither the program counter nor the mark of a constructor
call. -/
def Opcode.isSteady : Opcode → Bool
  | .jmp | .jmpz | .jmpnz | .leave | .markst | .call | .ret => false
  | _ => true

namespace Machine

variable {Result Next : Type}

/-! ### The judgements -/

/-- However the action ends, the program counter is where it was, and a script fault that it ends
with has passed no place yet. -/
structure InPlace (action : Action Result) : Prop where
  current : ∀ machine, (leftBy action machine).current = machine.current
  trail : ∀ machine inner final, action machine = .error (.script inner) final → inner.trail = []

/-- However the action ends, it is `InPlace`, and the mark of a constructor call is what it was too.
-/
structure Steady (action : Action Result) : Prop extends InPlace action where
  construct : ∀ machine, (leftBy action machine).flags.construct = machine.flags.construct

/-- Where the first of two actions fails, that is the end; else the second goes on behind it. -/
theorem leftBy_bind (action : Action Result) (next : Result → Action Next) (machine : Machine) :
    leftBy (action >>= next) machine = leftBy action machine ∨
      ∃ result, leftBy (action >>= next) machine =
        leftBy (next result) (leftBy action machine) := by
  cases ends : action machine with
  | ok result middle =>
    right
    refine ⟨result, ?_⟩
    rw [leftBy_of_ok ends, leftBy_bind_of_ok ends]
  | error fault middle =>
    left
    rw [leftBy_of_error ends, leftBy_of_error (bind_of_error ends)]

namespace InPlace

theorem pure (result : Result) : InPlace (Pure.pure result : Action Result) :=
  ⟨fun _ => rfl, by rintro _ _ _ ⟨⟩⟩

theorem modify {change : Machine → Machine}
    (current : ∀ machine, (change machine).current = machine.current) : InPlace (modify change) :=
  ⟨current, by rintro _ _ _ ⟨⟩⟩

theorem bind {action : Action Result} {next : Result → Action Next} (first : InPlace action)
    (second : ∀ result, InPlace (next result)) : InPlace (action >>= next) := by
  constructor
  case current =>
    intro machine
    rcases leftBy_bind action next machine with same | ⟨result, same⟩
    · rw [same, first.current]
    · rw [same, (second result).current, first.current]
  case trail =>
    intro machine inner final ends
    rcases bind_eq_error.mp ends with failed | ⟨result, middle, _, failed⟩
    · exact first.trail machine inner final failed
    · exact (second result).trail middle inner final failed

theorem current_of_ok {action : Action Result} {machine final : Machine} {result : Result}
    (inPlace : InPlace action) (ends : action machine = .ok result final) :
    final.current = machine.current := by
  rw [← leftBy_of_ok ends, inPlace.current]

end InPlace

namespace Steady

theorem pure (result : Result) : Steady (Pure.pure result : Action Result) :=
  ⟨.pure result, fun _ => rfl⟩

theorem throw {fault : Fault} (other : ∀ inner, fault = .script inner → inner.trail = []) :
    Steady (MonadExcept.throw fault : Action Result) :=
  ⟨⟨fun _ => rfl, by rintro _ inner _ ⟨⟩; exact other inner rfl⟩, fun _ => rfl⟩

theorem modify {change : Machine → Machine}
    (current : ∀ machine, (change machine).current = machine.current)
    (construct : ∀ machine, (change machine).flags.construct = machine.flags.construct) :
    Steady (modify change) :=
  ⟨.modify current, construct⟩

theorem bind {action : Action Result} {next : Result → Action Next} (first : Steady action)
    (second : ∀ result, Steady (next result)) : Steady (action >>= next) := by
  refine ⟨.bind first.toInPlace fun result => (second result).toInPlace, fun machine => ?_⟩
  rcases leftBy_bind action next machine with same | ⟨result, same⟩
  · rw [same, first.construct]
  · rw [same, (second result).construct, first.construct]

theorem get {next : Machine → Action Next} (rest : ∀ machine, Steady (next machine)) :
    Steady (MonadState.get >>= next) :=
  ⟨⟨fun machine => (rest machine).current machine, fun machine => (rest machine).trail machine⟩,
    fun machine => (rest machine).construct machine⟩

theorem onHeap (operation : StateM Heap Result) : Steady (Machine.onHeap operation) :=
  ⟨⟨fun _ => rfl, by rintro _ _ _ ⟨⟩⟩, fun _ => rfl⟩

theorem construct_of_ok {action : Action Result} {machine final : Machine} {result : Result}
    (steady : Steady action) (ends : action machine = .ok result final) :
    final.flags.construct = machine.flags.construct := by
  rw [← leftBy_of_ok ends, steady.construct]

end Steady

/-! ### Elementary moves -/

theorem steady_malformed (malformation : Malformation) :
    Steady (malformed malformation : Action Result) :=
  .get fun _ => .throw fun _ => Fault.noConfusion

theorem steady_raise (cause : Cause) : Steady (raise cause : Action Result) :=
  .throw (by rintro _ ⟨⟩; rfl)

theorem steady_breakDown (breakdown : Breakdown) : Steady (breakDown breakdown : Action Result) :=
  .throw fun _ => Fault.noConfusion

theorem steady_onScopes (change : Scopes → Scopes) : Steady (onScopes change) := by
  refine .get fun machine => ?_
  split
  · exact .modify (fun _ => rfl) fun _ => rfl
  · exact steady_breakDown _

theorem steady_contentOf (cell : CellId) : Steady (contentOf cell) :=
  .get fun _ => .pure _

theorem steady_push (operand : Operand) : Steady (push operand) :=
  .modify (fun _ => rfl) fun _ => rfl

theorem steady_pushCell (cell : CellId) : Steady (pushCell cell) :=
  steady_push _

theorem steady_pushContent (content : Content) : Steady (pushContent content) :=
  .bind (.onHeap _) fun _ => steady_pushCell _

theorem steady_top : Steady top := by
  refine .get fun machine => ?_
  split
  · exact .pure _
  · exact steady_malformed _

theorem steady_pop : Steady pop :=
  .bind steady_top fun _ => .bind (.modify (fun _ => rfl) fun _ => rfl) fun _ => .pure _

theorem steady_popOnto (count : Nat) (cells : List CellId) : Steady (popOnto count cells) := by
  induction count generalizing cells with
  | zero => exact .pure _
  | succ count inductionHypothesis => exact .bind steady_pop fun _ => inductionHypothesis _

theorem steady_setFlags : Steady setFlags :=
  .bind steady_top fun _ => .bind (steady_contentOf _) fun _ =>
    .modify (fun _ => rfl) fun _ => rfl

theorem steady_pushReceiver (cell : CellId) : Steady (pushReceiver cell) :=
  .modify (fun _ => rfl) fun _ => rfl

theorem steady_receiver : Steady receiver := by
  refine .get fun machine => ?_
  split
  · exact .pure _
  · split
    · exact .pure _
    · exact steady_breakDown _

theorem steady_pushFrame : Steady pushFrame :=
  .modify (fun _ => rfl) fun _ => rfl

theorem steady_popFrame : Steady popFrame := by
  refine .get fun machine => ?_
  split
  · exact .bind (.modify (fun _ => rfl) fun _ => rfl) fun _ => .pure _
  · exact steady_malformed _

/-! ### Plain instructions -/

theorem steady_nameOf (datum : Datum CellId) : Steady (nameOf datum) := by
  unfold nameOf
  split
  · exact .pure _
  · exact .pure _
  · exact steady_malformed _

theorem steady_countOf (datum : Datum CellId) : Steady (countOf datum) := by
  unfold countOf
  split
  · exact .pure _
  · exact steady_malformed _

theorem steady_literal (datum : Datum CellId) : Steady (literal datum) := by
  unfold literal
  split
  · exact .onHeap _
  · exact .onHeap _
  · exact .onHeap _
  · exact .onHeap _
  · split
    · exact .pure _
    · exact steady_malformed _
  · exact steady_malformed _

theorem steady_fetch (name : Text) : Steady (fetch name) := by
  unfold fetch
  split
  · exact .bind steady_receiver fun _ => .modify (fun _ => rfl) fun _ => rfl
  · refine .get fun machine => ?_
    split
    · split
      · exact .modify (fun _ => rfl) fun _ => rfl
      · exact steady_raise _
    · exact steady_breakDown _

theorem steady_declare (name : Text) : Steady (declare name) :=
  .bind (.onHeap _) fun _ => steady_onScopes _

theorem steady_store : Steady store := by
  refine .bind steady_pop fun target => .bind steady_pop fun source =>
    .bind (steady_contentOf _) fun content => .get fun machine => ?_
  have ending : Steady (do push target; setFlags) :=
    .bind (steady_push target) fun _ => steady_setFlags
  split
  · exact .bind (.onHeap _) fun _ => ending
  · exact ending

theorem steady_increment (difference : Float) : Steady (increment difference) := by
  refine .bind steady_pop fun operand => .get fun machine => ?_
  dsimp only
  split
  · exact .bind (.onHeap _) fun _ => .bind (steady_pushCell _) fun _ => steady_setFlags
  · exact .bind (steady_pushContent _) fun _ => steady_setFlags

theorem steady_incrementAfter (difference : Float) : Steady (incrementAfter difference) := by
  refine .bind steady_pop fun operand => .get fun machine => ?_
  have ending (content : Content) : Steady (do pushContent content; setFlags) :=
    .bind (steady_pushContent content) fun _ => steady_setFlags
  dsimp only
  split
  · exact .bind (.onHeap _) fun _ => ending _
  · exact ending _

theorem steady_negate (negation : Int32 → Content) : Steady (negate negation) := by
  refine .bind steady_pop fun operand => .get fun machine => ?_
  dsimp only
  split
  · exact .bind (steady_pushContent _) fun _ => steady_setFlags
  · exact .bind (steady_pushContent _) fun _ => steady_setFlags

theorem steady_applyBinary (operator : BinaryOperator) : Steady (applyBinary operator) :=
  .bind steady_pop fun _ => .bind steady_pop fun _ => .get fun _ =>
    .bind (steady_pushContent _) fun _ => steady_setFlags

theorem steady_popProperties (count : Nat) : Steady (popProperties count) := by
  refine .get fun machine => ?_
  split
  · exact steady_malformed _
  · dsimp only
    split
    · exact steady_raise _
    · exact .bind (.onHeap _) fun _ => .bind (.modify (fun _ => rfl) fun _ => rfl) fun _ =>
        .bind (steady_pushCell _) fun _ => steady_setFlags

theorem steady_replaceByProperty (datum : Datum CellId) : Steady (replaceByProperty datum) :=
  .bind steady_pop fun _ => .bind (steady_pushReceiver _) fun _ =>
    .bind (steady_nameOf datum) fun _ => .bind (steady_contentOf _) fun _ =>
      .bind (.onHeap _) fun _ => .bind (steady_pushCell _) fun _ => steady_setFlags

theorem steady_replaceByElement : Steady replaceByElement :=
  .bind steady_pop fun _ => .bind steady_pop fun _ => .get fun _ =>
    .bind (.onHeap _) fun _ => .bind (steady_pushCell _) fun _ =>
      .bind (steady_pushReceiver _) fun _ => steady_setFlags

theorem steady_moveIntoArray (array : ArrayId) (count : Nat) :
    Steady (moveIntoArray array count) := by
  induction count with
  | zero => exact .pure _
  | succ position inductionHypothesis =>
    exact .bind steady_pop fun _ => .bind (.onHeap _) fun _ => inductionHypothesis

theorem steady_fillAccumulator (datum : Datum CellId) : Steady (fillAccumulator datum) := by
  refine .get fun machine => ?_
  split
  · exact .bind (steady_countOf datum) fun _ => steady_moveIntoArray _ _
  · exact steady_malformed _

theorem steady_setKey (datum : Datum CellId) : Steady (setKey datum) :=
  .bind steady_top fun _ => .bind (steady_nameOf datum) fun _ =>
    .modify (fun _ => rfl) fun _ => rfl

theorem steady_popReceiver : Steady popReceiver := by
  refine .get fun machine => ?_
  split
  · exact .bind (steady_pushCell _) fun _ => .modify (fun _ => rfl) fun _ => rfl
  · split
    · exact steady_pushCell _
    · exact steady_breakDown _

theorem steady_executePlain {instruction : Instruction CellId}
    (isSteady : instruction.opcode.isSteady = true) : Steady (executePlain instruction) := by
  obtain ⟨opcode, offset, datum⟩ := instruction
  unfold executePlain
  cases opcode with
  | jmp | jmpz | jmpnz | leave | markst | call | ret => cases isSteady
  | noop | loopz => exact .pure ()
  | fetch => exact .bind (steady_nameOf datum) fun name => steady_fetch name
  | store => exact steady_store
  | push =>
    exact .bind (steady_literal datum) fun _ => .bind (steady_pushCell _) fun _ => steady_setFlags
  | pushim =>
    refine .get fun machine => ?_
    split
    · exact .bind (steady_pushCell _) fun _ => steady_setFlags
    · exact steady_malformed _
  | poprop => exact .bind (steady_countOf datum) fun _ => steady_popProperties _
  | replprop => exact steady_replaceByProperty datum
  | index => exact steady_replaceByElement
  | res =>
    exact .bind (steady_countOf datum) fun _ => .bind (.onHeap _) fun _ =>
      .modify (fun _ => rfl) fun _ => rfl
  | news => exact .bind (steady_nameOf datum) fun name => steady_declare name
  | cpya => exact steady_fillAccumulator datum
  | maps => exact steady_setKey datum
  | pushthis => exact steady_popReceiver
  | inc | dec => exact steady_increment _
  | pinc | pdec => exact steady_incrementAfter _
  | snot | bnot => exact steady_negate _
  | adds | subs | muls | divs | rems | lts | gts | ltes | gtes | eqs | neqs | shls | shrs | bors
  | bands | ors | ands | xors => exact steady_applyBinary _
  | unknown beyond => exact steady_malformed _

end Machine

end ScriptEngine
