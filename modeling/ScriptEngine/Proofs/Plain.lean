/-
This file judges every instruction that neither calls nor returns, and every native function.
For each instruction it states how many operands it takes off the stack, which is the lowest
the stack gets while the instruction is executed; the judgement then says that whatever lies
lower keeps its cells. A native function does less: its arguments have been taken before it is
called, and it changes nothing but memory and what was printed.
-/

import ScriptEngine.Proofs.Quiet

namespace ScriptEngine

open Relation

/-! ### What an instruction takes -/

/-- The count that an operand stands for, or zero. -/
def Datum.countOrZero {Reference : Type} (datum : Datum Reference) : Nat :=
  (Number.size? datum.number).getD 0

/-- How many operands an instruction takes off the stack before it puts any there. -/
def Instruction.operandsTaken {Reference : Type} (instruction : Instruction Reference) : Nat :=
  match instruction.opcode with
  | .store | .index => 2
  | .replprop | .ret | .inc | .dec | .pinc | .pdec | .snot | .bnot => 1
  | .poprop | .cpya => instruction.datum.countOrZero
  | .call => instruction.datum.countOrZero + 1
  | opcode => if opcode.binaryOperator?.isSome then 2 else 0

/-- How many receivers an instruction takes off their stack. -/
def Instruction.receiversTaken {Reference : Type} (instruction : Instruction Reference) : Nat :=
  match instruction.opcode with
  | .pushthis => 1
  | _ => 0

namespace Machine

variable {Result Next : Type}

/-! ### Operands embedded in instructions -/

theorem local_nameOf (datum : Datum CellId) (machine : Machine) :
    Local 0 0 (nameOf datum) machine := by
  unfold nameOf
  split
  · exact .pure _
  · exact .pure _
  · exact local_malformed ..

theorem countOf_cases (datum : Datum CellId) :
    (datum.kind = .number ∧ Number.size? datum.number = some datum.countOrZero ∧
      countOf datum = pure datum.countOrZero) ∨
      ∃ malformation, countOf datum = malformed malformation := by
  unfold countOf
  split
  · rename_i count kind size
    left
    rw [Datum.countOrZero, size]
    exact ⟨kind, rfl, rfl⟩
  · exact .inr ⟨_, rfl⟩

/-- A count that is taken of an operand is the one it stands for, and taking it is `Local`. -/
theorem Local.countOf {taken popped : Nat} {machine : Machine} {datum : Datum CellId}
    {next : Nat → Action Next} (rest : Local taken popped (next datum.countOrZero) machine) :
    Local taken popped (Machine.countOf datum >>= next) machine := by
  rcases countOf_cases datum with ⟨_, _, equal⟩ | ⟨malformation, equal⟩
  · rw [equal]
    exact rest
  · rw [equal]
    have fails : (malformed malformation >>= next) machine =
        .error (.malformed machine.place malformation) machine := rfl
    refine ⟨?_, fun _ _ ends => by rw [fails] at ends; cases ends⟩
    unfold Leads
    rw [leftBy_of_error fails]

theorem local_literal (datum : Datum CellId) (machine : Machine) :
    Local 0 0 (literal datum) machine := by
  unfold literal
  split
  · exact local_onHeap machine (Heap.changes_allocateContent _ _)
  · exact local_onHeap machine (Heap.changes_allocateContent _ _)
  · exact local_onHeap machine (Heap.changes_allocateContent _ _)
  · exact local_onHeap machine (Heap.changes_allocateContent _ _)
  · split
    · exact .pure _
    · exact local_malformed ..
  · exact local_malformed ..

/-! ### Names -/

theorem local_fetch (name : Text) (machine : Machine) : Local 0 0 (fetch name) machine := by
  unfold fetch
  split
  · exact .bind (local_receiver machine) fun _ middle _ =>
      .modify _ (.accumulator middle _) (.of_eq rfl rfl)
  · refine .get ?_
    split
    · split
      · exact .modify _ (.accumulator machine _) (.of_eq rfl rfl)
      · exact local_raise ..
    · exact local_breakDown ..

theorem local_declare (name : Text) (machine : Machine) : Local 0 0 (declare name) machine :=
  local_bindNew name _ .undefined machine rfl

/-! ### Writing through cells -/

theorem local_write (id : CellId) (content : Content) (machine : Machine)
    (writable : machine.heap.writable id = true) :
    Local 0 0 (onHeap (Heap.setContent id content)) machine :=
  local_onHeap machine (.single (.write machine.heap id content writable))

theorem local_store (machine : Machine) : Local 2 0 store machine := by
  unfold store
  refine .pop fun target _ => .pop fun source _ => .bind (local_contentOf _ _) ?_
  rintro content middle ⟨⟩
  refine .get ?_
  have ending (last : Machine) : Local 0 0 (do push target; setFlags) last :=
    .bind (local_push target last) fun _ final _ => local_setFlags final
  dsimp only
  split
  · rename_i writable
    exact .bind (local_write _ _ _ writable) fun _ last _ => ending last
  · exact ending _

theorem local_increment (difference : Float) (machine : Machine) :
    Local 1 0 (increment difference) machine := by
  unfold increment
  refine .pop fun operand _ => .get ?_
  dsimp only
  split
  · rename_i writable
    exact .bind (local_write _ _ _ writable) fun _ middle _ =>
      .bind (local_pushCell _ middle) fun _ last _ => local_setFlags last
  · exact .bind (local_pushContent _ _) fun _ last _ => local_setFlags last

theorem local_incrementAfter (difference : Float) (machine : Machine) :
    Local 1 0 (incrementAfter difference) machine := by
  unfold incrementAfter
  refine .pop fun operand _ => .get ?_
  have ending (content : Content) (last : Machine) :
      Local 0 0 (do pushContent content; setFlags) last :=
    .bind (local_pushContent content last) fun _ final _ => local_setFlags final
  dsimp only
  split
  · rename_i writable
    exact .bind (local_write _ _ _ writable) fun _ last _ => ending _ last
  · exact ending _ _

theorem local_negate (negation : Int32 → Content) (machine : Machine) :
    Local 1 0 (negate negation) machine := by
  unfold negate
  refine .pop fun operand _ => .get ?_
  dsimp only
  split
  · exact .bind (local_pushContent _ _) fun _ last _ => local_setFlags last
  · exact .bind (local_pushContent _ _) fun _ last _ => local_setFlags last

theorem local_applyBinary (operator : BinaryOperator) (machine : Machine) :
    Local 2 0 (applyBinary operator) machine := by
  unfold applyBinary
  exact .pop fun right _ => .pop fun left _ => .get
    (.bind (local_pushContent _ _) fun _ last _ => local_setFlags last)

/-! ### Objects and arrays -/

theorem changes_setOperands (target : Content) (operands : List Operand) :
    Heap.Changes (setOperands target operands) := by
  induction operands with
  | nil => exact Heap.changes_pure ()
  | cons operand rest inductionHypothesis =>
    intro heap
    have copied : Heap.Changes (Heap.allocate { content := heap.content operand.cell } >>=
        Heap.setProperty target operand.key) :=
      Heap.changes_setProperty target operand.key rfl
    exact (copied heap).trans (inductionHypothesis _)

theorem local_popProperties (count : Nat) (machine : Machine) :
    Local count 0 (popProperties count) machine := by
  unfold popProperties
  refine .get ?_
  split
  · exact local_malformed ..
  · dsimp only
    split
    · exact local_raise ..
    · refine .bind (local_onHeap machine ?_) fun cell middle _ =>
        .andThen (.modify _ (.operands middle _) (.shrink middle count)) fun _ rest _ =>
          .bind (local_pushCell _ rest) fun _ last _ => local_setFlags last
      exact Heap.changes_bind Heap.changes_allocateObject (fun _ => Heap.changes_get fun _ =>
        Heap.changes_bind (changes_setOperands _ _) fun _ => Heap.changes_pure _) machine.heap

theorem local_replaceByProperty (datum : Datum CellId) (machine : Machine) :
    Local 1 0 (replaceByProperty datum) machine := by
  unfold replaceByProperty
  exact .pop fun operand _ => .bind (local_pushReceiver _ _) fun _ middle _ =>
    .bind (local_nameOf datum middle) fun name named _ =>
      .bind (local_contentOf _ named) fun content read _ =>
        .bind (local_onHeap read (Heap.changes_getProperty content name _)) fun _ got _ =>
          .bind (local_pushCell _ got) fun _ last _ => local_setFlags last

theorem local_replaceByElement (machine : Machine) : Local 2 0 replaceByElement machine := by
  unfold replaceByElement
  exact .pop fun index _ => .pop fun collection _ => .get
    (.bind (local_onHeap _ (Heap.changes_getProperty _ _ _)) fun _ got _ =>
      .bind (local_pushCell _ got) fun _ pushed _ =>
        .bind (local_pushReceiver _ pushed) fun _ last _ => local_setFlags last)

theorem local_moveIntoArray (array : ArrayId) (count : Nat) (machine : Machine) :
    Local count 0 (moveIntoArray array count) machine := by
  induction count generalizing machine with
  | zero => exact .pure ()
  | succ position inductionHypothesis =>
    exact .pop fun operand _ =>
      .bind (local_onHeap _ (.single (.element _ array position _ rfl))) fun _ middle _ =>
        inductionHypothesis middle

theorem local_fillAccumulator (datum : Datum CellId) (machine : Machine) :
    Local datum.countOrZero 0 (fillAccumulator datum) machine := by
  unfold fillAccumulator
  refine .get ?_
  split
  · exact .countOf (local_moveIntoArray _ _ machine)
  · exact local_malformed ..

theorem local_setKey (datum : Datum CellId) (machine : Machine) :
    Local 0 0 (setKey datum) machine := by
  unfold setKey
  refine .bind (local_top machine) fun operand middle ends => ?_
  obtain ⟨topmost, rfl⟩ := top_eq_ok.mp ends
  unfold nameOf
  split
  · exact .modify _ (.operands _ _) (.rekey _ operand _ topmost)
  · exact .modify _ (.operands _ _) (.rekey _ operand _ topmost)
  · exact .bind (local_malformed ..) fun _ _ impossible => by cases impossible

theorem local_popReceiver (machine : Machine) : Local 0 1 popReceiver machine := by
  unfold popReceiver
  refine .get ?_
  split
  · exact .bind (local_pushCell _ machine) fun _ middle _ =>
      .modify _ (.receivers middle _) (.popReceiver middle)
  · split
    · refine ⟨(local_pushCell _ machine).quiet, ?_⟩
      rintro _ _ ⟨⟩
      refine ⟨(Spares.push machine _).operands, fun height room => ?_⟩
      exact (Spares.push machine _).receivers height (by omega)
    · exact local_breakDown ..

/-! ### Every plain instruction -/

theorem local_jump (instruction : Instruction CellId) (machine : Machine) :
    Local 0 0 (jump instruction) machine :=
  .modify _ (.current machine _) (.of_eq rfl rfl)

theorem local_executePlain (instruction : Instruction CellId) (machine : Machine)
    (noReturn : instruction.opcode ≠ .ret) (noCall : instruction.opcode ≠ .call) :
    Local instruction.operandsTaken instruction.receiversTaken (executePlain instruction)
      machine := by
  obtain ⟨opcode, offset, datum⟩ := instruction
  unfold executePlain
  cases opcode with
  | ret => exact absurd rfl noReturn
  | call => exact absurd rfl noCall
  | noop | loopz => exact .pure ()
  | fetch => exact .bind (local_nameOf datum machine) fun name middle _ => local_fetch name middle
  | store => exact local_store machine
  | push =>
    exact .bind (local_literal datum machine) fun _ middle _ =>
      .bind (local_pushCell _ middle) fun _ last _ => local_setFlags last
  | pushim =>
    refine .get ?_
    split
    · exact .bind (local_pushCell _ machine) fun _ last _ => local_setFlags last
    · exact local_malformed ..
  | poprop => exact .countOf (local_popProperties _ machine)
  | replprop => exact local_replaceByProperty datum machine
  | index => exact local_replaceByElement machine
  | res =>
    exact .countOf (.bind (local_onHeap machine (Heap.changes_allocateArray _ _)) fun _ middle _ =>
      .modify _ (.accumulator middle _) (.of_eq rfl rfl))
  | news => exact .bind (local_nameOf datum machine) fun name middle _ => local_declare name middle
  | cpya => exact local_fillAccumulator datum machine
  | maps => exact local_setKey datum machine
  | jmp => exact local_jump _ machine
  | jmpz | jmpnz =>
    refine .get ?_
    split
    · exact local_jump _ machine
    · exact .pure ()
  | leave => exact .modify _ (.current machine _) (.of_eq rfl rfl)
  | markst => exact .modify _ (.flags machine _) (.of_eq rfl rfl)
  | pushthis => exact local_popReceiver machine
  | inc | dec => exact local_increment _ machine
  | pinc | pdec => exact local_incrementAfter _ machine
  | snot | bnot => exact local_negate _ machine
  | adds | subs | muls | divs | rems | lts | gts | ltes | gtes | eqs | neqs | shls | shrs | bors
  | bands | ors | ands | xors => exact local_applyBinary _ machine
  | unknown beyond => exact local_malformed ..

theorem execute_of_noCall {instruction : Instruction CellId} (noCall : instruction.opcode ≠ .call) :
    execute instruction = do executePlain instruction; return .done := by
  unfold execute
  split
  · contradiction
  · rfl

/-- An instruction that calls nothing is over once `executePlain` has executed it. -/
theorem execute_of_plain {instruction : Instruction CellId} {machine final : Machine}
    (noCall : instruction.opcode ≠ .call)
    (executed : executePlain instruction machine = .ok () final) :
    execute instruction machine = .ok .done final := by
  rw [execute_of_noCall noCall]
  exact bind_of_ok executed

theorem executePlain_of_ret {instruction : Instruction CellId}
    (returns : instruction.opcode = .ret) : executePlain instruction = ret := by
  unfold executePlain
  rw [returns]

theorem execute_of_takes {instruction : Instruction CellId}
    (isTake : instruction.opcode = .pushthis) :
    execute instruction = do popReceiver; return .done := by
  unfold execute executePlain
  rw [isTake]

/-- Taking a receiver where there is one moves it to the operands. -/
theorem execute_takes_of_some {machine : Machine} {instruction : Instruction CellId}
    {cell : CellId} (isTake : instruction.opcode = .pushthis)
    (topmost : machine.receivers.back? = some cell) :
    execute instruction machine = .ok .done
      { machine with
        operands := machine.operands.push { cell }
        receivers := machine.receivers.pop } := by
  rw [execute_of_takes isTake]
  unfold popReceiver
  rw [bind_assoc]
  refine (get_bind _ _).trans ?_
  rw [topmost]
  rfl

/-- Taking a receiver where there is none pushes the one of the scope store. -/
theorem execute_takes_of_none {machine : Machine} {instruction : Instruction CellId}
    (isTake : instruction.opcode = .pushthis) (topmost : machine.receivers.back? = none)
    (usable : machine.attached = true) :
    execute instruction machine = .ok .done
      { machine with operands := machine.operands.push { cell := machine.scopes.receiver } } := by
  rw [execute_of_takes isTake]
  unfold popReceiver
  rw [bind_assoc]
  refine (get_bind _ _).trans ?_
  rw [topmost]
  dsimp only
  rw [if_pos usable]
  rfl

/-! ### Native functions -/

/-- One elementary change that a native function can make: of memory or of what was printed. -/
inductive Aside : Machine → Machine → Prop where
  | memory (machine : Machine) (heap : Heap) (change : Heap.Change machine.heap heap) :
    Aside machine { machine with heap }
  | output (machine : Machine) (output : Array Text) : Aside machine { machine with output }

theorem Aside.quiet {before after : Machine} (aside : Aside before after) : Quiet before after := by
  cases aside with
  | memory heap change => exact .memory _ heap change
  | output output => exact .output _ output

theorem aside_onHeap {operation : StateM Heap Result} (machine : Machine)
    (changes : Heap.Changes operation) : Leads Aside (onHeap operation) machine := by
  change ReflTransGen Aside machine { machine with heap := (operation machine.heap).2 }
  generalize (operation machine.heap).2 = heap, changes machine.heap = sequence
  induction sequence with
  | refl => exact .refl
  | tail _ change inductionHypothesis => exact inductionHypothesis.tail (.memory _ _ change)

theorem aside_callArray (arguments : List CellId) (machine : Machine) :
    Leads Aside (callArray arguments) machine := by
  unfold callArray
  refine .get ?_
  dsimp only
  split
  · split
    · split
      · exact aside_onHeap machine (Heap.changes_allocateArray _)
      · exact .throw _
    · exact aside_onHeap machine (Heap.changes_arrayOfCopies _)
  · exact aside_onHeap machine (Heap.changes_arrayOfCopies _)

theorem aside_callAssertEqual (arguments : List CellId) (machine : Machine) :
    Leads Aside (callAssertEqual arguments) machine := by
  unfold callAssertEqual
  refine .get ?_
  dsimp only
  split
  · split
    · exact aside_onHeap machine (Heap.changes_allocateContent _)
    · exact .throw _
  · exact .throw _

theorem aside_callPlain (native : Native) (arguments : List CellId) (machine : Machine) :
    Leads Aside (callPlain native arguments) machine := by
  unfold callPlain
  cases native with
  | print =>
    refine .get (.bind (.modify _ (.output machine _)) fun _ middle _ => ?_)
    exact aside_onHeap middle (Heap.changes_allocateContent _)
  | assertEqual => exact aside_callAssertEqual arguments machine
  | array => exact aside_callArray arguments machine
  | number | boolean => exact .get (aside_onHeap machine (Heap.changes_allocateContent _))
  | object => exact aside_onHeap machine Heap.changes_allocateObject
  | echo => exact aside_onHeap machine (Heap.changes_firstOrUndefined _)
  | invoke => exact .throw _

theorem aside_prepared (callee : CellId) (machine : Machine) :
    Leads Aside (prepared callee) machine := by
  unfold prepared
  refine .bind (.get (.pure _)) fun content middle _ => ?_
  split
  · exact .bind (aside_onHeap middle (Heap.changes_prepare _)) fun _ _ _ => .pure _
  · exact .throw _

theorem aside_callHost (native : Native) (receiver : Option CellId) (arguments : List CellId)
    (machine : Machine) : Leads Aside (callHost native receiver arguments) machine := by
  induction arguments generalizing native machine with
  | nil =>
    unfold callHost
    exact .bind (aside_callPlain native [] machine) fun _ _ _ => .pure _
  | cons first rest inductionHypothesis =>
    unfold callHost
    split
    · refine .bind (aside_prepared first machine) fun function middle _ => .get ?_
      split
      · exact inductionHypothesis _ middle
      · exact .pure _
    · exact .bind (aside_callPlain native _ machine) fun _ _ _ => .pure _

/-- The action fails only by raising a script fault. -/
def Raises (action : Action Result) : Prop :=
  ∀ machine fault final, action machine = .error fault final → ∃ cause, fault = .script { cause }

theorem raises_pure (result : Result) : Raises (pure result) := by
  rintro _ _ _ ⟨⟩

theorem raises_raise (cause : Cause) : Raises (raise cause : Action Result) := by
  rintro _ _ _ ⟨⟩
  exact ⟨cause, rfl⟩

theorem raises_onHeap (operation : StateM Heap Result) : Raises (onHeap operation) := by
  rintro _ _ _ ⟨⟩

theorem raises_get {next : Machine → Action Next} (rest : ∀ machine, Raises (next machine)) :
    Raises (get >>= next) :=
  fun machine => rest machine machine

theorem Raises.bind {action : Action Result} {next : Result → Action Next} (first : Raises action)
    (second : ∀ result, Raises (next result)) : Raises (action >>= next) := by
  intro machine fault final ends
  rcases bind_eq_error.mp ends with failed | ⟨result, middle, _, failed⟩
  · exact first machine fault final failed
  · exact second result middle fault final failed

theorem raises_callArray (arguments : List CellId) : Raises (callArray arguments) := by
  unfold callArray
  refine raises_get fun machine => ?_
  dsimp only
  split
  · split
    · split
      · exact raises_onHeap _
      · exact raises_raise _
    · exact raises_onHeap _
  · exact raises_onHeap _

theorem raises_callAssertEqual (arguments : List CellId) : Raises (callAssertEqual arguments) := by
  unfold callAssertEqual
  refine raises_get fun machine => ?_
  dsimp only
  split
  · split
    · exact raises_onHeap _
    · exact raises_raise _
  · exact raises_raise _

theorem raises_callPlain (native : Native) (arguments : List CellId) :
    Raises (callPlain native arguments) := by
  unfold callPlain
  cases native with
  | print =>
    have printed (change : Machine → Machine) : Raises (modify change) := by
      rintro _ _ _ ⟨⟩
    exact raises_get fun _ => .bind (printed _) fun _ => raises_onHeap _
  | assertEqual => exact raises_callAssertEqual arguments
  | array => exact raises_callArray arguments
  | number | boolean => exact raises_get fun _ => raises_onHeap _
  | object | echo => exact raises_onHeap _
  | invoke => exact raises_raise _

theorem raises_prepared (callee : CellId) : Raises (prepared callee) := by
  unfold prepared
  refine .bind (raises_get fun _ => raises_pure _) fun content => ?_
  split
  · exact .bind (raises_onHeap _) fun _ => raises_pure _
  · exact raises_raise _

/-- A native function is never malformed in `callHost`, and never asks for what the machine does not
have; what it `Raises` are other faults. -/
theorem raises_callHost (native : Native) (receiver : Option CellId) (arguments : List CellId) :
    Raises (callHost native receiver arguments) := by
  induction arguments generalizing native with
  | nil =>
    unfold callHost
    exact .bind (raises_callPlain native []) fun _ => raises_pure _
  | cons first rest inductionHypothesis =>
    unfold callHost
    split
    · refine .bind (raises_prepared first) fun function => raises_get fun _ => ?_
      split
      · exact inductionHypothesis _
      · exact raises_pure _
    · exact .bind (raises_callPlain native _) fun _ => raises_pure _

/-- All but memory and output is as it was over what is `Aside`. -/
theorem eq_of_aside {before after : Machine} (asides : ReflTransGen Aside before after) :
    after = { before with heap := after.heap, output := after.output } := by
  induction asides with
  | refl => rfl
  | tail _ aside inductionHypothesis =>
    cases aside with
    | memory heap change => rw [inductionHypothesis]
    | output output => rw [inductionHypothesis]

end Machine

end ScriptEngine
