/-
This file shows that the machine never follows a reference that leads nowhere. A machine is sound
when its scope store is attached and every cell on its stacks, in its accumulator, in its scopes
and in its instructions has been made. Every action keeps a sound machine sound, whether it fails
or not, and none breaks down, with one exception: the end of an activation breaks down when its
function has consumed receivers below those it has found.
-/

import ScriptEngine.Proofs.Action
import ScriptEngine.Proofs.Closed

namespace ScriptEngine

namespace Machine

variable {Result Next : Type} {machine : Machine}

/-! ### Sound machines -/

/-- A machine with a scope store, all of whose references lead somewhere: its memory is `Closed`,
and its cells are in it. -/
structure Sound (machine : Machine) : Prop where
  attached : machine.attached = true
  memory : machine.heap.Closed
  operands : ∀ operand ∈ machine.operands, machine.heap.Has operand.cell
  receivers : ∀ cell ∈ machine.receivers, machine.heap.Has cell
  accumulator : ∀ cell, machine.accumulator = some cell → machine.heap.Has cell
  globals : machine.heap.HasAll machine.scopes.globals
  opened : ∀ table ∈ machine.scopes.opened, machine.heap.HasAll table
  receiver : machine.heap.Has machine.scopes.receiver
  code : ∀ instruction ∈ machine.code, ∀ cell, instruction.datum.object = some cell →
    machine.heap.Has cell

namespace Sound

/-- Where memory `Grows` the references of a `Sound` machine stay good. -/
theorem grown {heap : Heap} (sound : machine.Sound) (closed : heap.Closed)
    (grows : machine.heap.Grows heap) : Sound { machine with heap } where
  attached := sound.attached
  memory := closed
  operands operand member := (sound.operands operand member).mono grows
  receivers cell member := (sound.receivers cell member).mono grows
  accumulator cell same := (sound.accumulator cell same).mono grows
  globals := sound.globals.mono grows
  opened table member := (sound.opened table member).mono grows
  receiver := sound.receiver.mono grows
  code instruction member cell same := (sound.code instruction member cell same).mono grows

theorem withOperands {operands : Array Operand} (sound : machine.Sound)
    (has : ∀ operand ∈ operands, machine.heap.Has operand.cell) :
    Sound { machine with operands } :=
  { sound with operands := has }

theorem withReceivers {receivers : Array CellId} (sound : machine.Sound)
    (has : ∀ cell ∈ receivers, machine.heap.Has cell) : Sound { machine with receivers } :=
  { sound with receivers := has }

theorem withAccumulator {cell : CellId} (sound : machine.Sound) (has : machine.heap.Has cell) :
    Sound { machine with accumulator := some cell } :=
  { sound with accumulator := fun _ same => Option.some.inj same ▸ has }

theorem withBinding {cell : CellId} (sound : machine.Sound) (has : machine.heap.Has cell)
    (name : Text) : Sound { machine with scopes := machine.scopes.bind name cell } := by
  unfold Scopes.bind
  split
  · exact { sound with globals := sound.globals.insert has name }
  · rename_i inner outer opened
    have innermost : machine.heap.HasAll inner :=
      sound.opened inner (by rw [opened]; exact List.mem_cons_self ..)
    refine { sound with opened := fun table member => ?_ }
    rcases List.mem_cons.mp member with rfl | older
    · exact innermost.insert has name
    · exact sound.opened table (by rw [opened]; exact List.mem_cons_of_mem _ older)

theorem openScope (sound : machine.Sound) :
    Sound { machine with scopes := machine.scopes.push } := by
  refine { sound with opened := fun table member => ?_ }
  rcases List.mem_cons.mp member with rfl | older
  · exact Heap.hasAll_empty _
  · exact sound.opened table older

theorem closeScopes (sound : machine.Sound) (count : Nat) :
    Sound
      { machine with
        scopes := { machine.scopes with opened := machine.scopes.opened.drop count } } :=
  { sound with opened := fun table member => sound.opened table (List.mem_of_mem_drop member) }

theorem cutBack (sound : machine.Sound) (operands receivers : Nat) :
    Sound
      { machine with
        operands := machine.operands.shrink operands
        receivers := machine.receivers.shrink receivers } :=
  { sound with
    operands := fun operand member => sound.operands operand (mem_of_mem_shrink member)
    receivers := fun cell member => sound.receivers cell (mem_of_mem_shrink member) }

/-- Every name that is found on a `Sound` machine is bound to a cell that has been made. -/
theorem lookup {name : Text} {cell : CellId} (sound : machine.Sound)
    (found : machine.scopes.get? name = some cell) : machine.heap.Has cell := by
  have tables : ∀ table ∈ machine.scopes.opened ++ [machine.scopes.globals],
      machine.heap.HasAll table := by
    intro table member
    rcases List.mem_append.mp member with opened | last
    · exact sound.opened table opened
    · exact List.mem_singleton.mp last ▸ sound.globals
  unfold Scopes.get? at found
  generalize machine.scopes.opened ++ [machine.scopes.globals] = scopes at found tables
  induction scopes with
  | nil => cases found
  | cons table rest inductionHypothesis =>
    rw [Scopes.lookup] at found
    split at found
    · rename_i known
      cases found
      exact (tables table (List.mem_cons_self ..)).get? known
    · exact inductionHypothesis found fun other member =>
        tables other (List.mem_cons_of_mem _ member)

end Sound

/-! ### Safe actions -/

/-- An action leaves a sound machine and does not break down; its result suits the memory that it
leaves, which has all there was before. -/
def Safe (suits : Heap → Result → Prop) (action : Action Result) (machine : Machine) : Prop :=
  match action machine with
  | .ok result after => after.Sound ∧ machine.heap.Grows after.heap ∧ suits after.heap result
  | .error fault after =>
    after.Sound ∧ machine.heap.Grows after.heap ∧ ∀ breakdown, fault ≠ .breakdown breakdown

namespace Safe

variable {suits : Heap → Result → Prop} {suitsNext : Heap → Next → Prop}

theorem of_ok {action : Action Result} {after : Machine} {result : Result}
    (safe : Safe suits action machine) (ends : action machine = .ok result after) :
    after.Sound ∧ machine.heap.Grows after.heap ∧ suits after.heap result := by
  unfold Safe at safe
  rwa [ends] at safe

theorem of_error {action : Action Result} {after : Machine} {fault : Fault}
    (safe : Safe suits action machine) (ends : action machine = .error fault after) :
    after.Sound ∧ machine.heap.Grows after.heap ∧
      ∀ breakdown, fault ≠ .breakdown breakdown := by
  unfold Safe at safe
  rwa [ends] at safe

theorem pure {result : Result} (sound : machine.Sound) (good : suits machine.heap result) :
    Safe suits (Pure.pure result) machine :=
  ⟨sound, .refl _, good⟩

theorem malformed (sound : machine.Sound) (malformation : Malformation) :
    Safe suits (Machine.malformed malformation) machine :=
  ⟨sound, .refl _, fun _ => Fault.noConfusion⟩

theorem raise (sound : machine.Sound) (cause : Cause) :
    Safe suits (Machine.raise cause) machine :=
  ⟨sound, .refl _, fun _ => Fault.noConfusion⟩

theorem bind {action : Action Result} {next : Result → Action Next}
    (first : Safe suits action machine)
    (second : ∀ result after, after.Sound → machine.heap.Grows after.heap →
      suits after.heap result → Safe suitsNext (next result) after) :
    Safe suitsNext (action >>= next) machine := by
  cases ends : action machine with
  | ok result middle =>
    obtain ⟨sound, grows, good⟩ := first.of_ok ends
    have rest := second result middle sound grows good
    unfold Safe at rest ⊢
    rw [bind_of_ok ends]
    split at rest
    · exact ⟨rest.1, grows.trans rest.2.1, rest.2.2⟩
    · exact ⟨rest.1, grows.trans rest.2.1, rest.2.2⟩
  | error fault middle =>
    unfold Safe
    rw [bind_of_error ends]
    exact first.of_error ends

theorem get {next : Machine → Action Next} (rest : Safe suitsNext (next machine) machine) :
    Safe suitsNext (MonadState.get >>= next) machine :=
  rest

theorem modify {change : Machine → Machine} {good : Heap → PUnit → Prop}
    (sound : (change machine).Sound) (grows : machine.heap.Grows (change machine).heap)
    (suits : good (change machine).heap ⟨⟩) : Safe good (modify change) machine :=
  ⟨sound, grows, suits⟩

theorem onHeap {operation : StateM Heap Result} (sound : machine.Sound)
    (keeps : Heap.Keeps suits operation machine.heap) :
    Safe suits (Machine.onHeap operation) machine :=
  ⟨sound.grown keeps.closed keeps.grows, keeps.grows, keeps.result⟩

theorem tryCatch {action : Action Result} {handler : Fault → Action Result}
    (first : Safe suits action machine)
    (second : ∀ fault after, after.Sound → machine.heap.Grows after.heap →
      (∀ breakdown, fault ≠ .breakdown breakdown) → Safe suits (handler fault) after) :
    Safe suits (MonadExcept.tryCatch action handler) machine := by
  cases ends : action machine with
  | ok result after =>
    unfold Safe
    rw [tryCatch_of_ok ends]
    exact first.of_ok ends
  | error fault after =>
    obtain ⟨sound, grows, other⟩ := first.of_error ends
    have rest := second fault after sound grows other
    unfold Safe at rest ⊢
    rw [tryCatch_of_error ends]
    split at rest
    · exact ⟨rest.1, grows.trans rest.2.1, rest.2.2⟩
    · exact ⟨rest.1, grows.trans rest.2.1, rest.2.2⟩

end Safe

/-! ### Stacks, scopes and frames -/

/-- The cell of an operand has been made. -/
def HasOperand (heap : Heap) (operand : Operand) : Prop :=
  heap.Has operand.cell

/-- All cells of a list have been made. -/
def HasCells (heap : Heap) (cells : List CellId) : Prop :=
  ∀ cell ∈ cells, heap.Has cell

theorem safe_contentOf (sound : machine.Sound) (cell : CellId) :
    Safe Heap.Knows (contentOf cell) machine :=
  .get (.pure sound (sound.memory.content cell))

theorem safe_push {operand : Operand} (sound : machine.Sound)
    (has : machine.heap.Has operand.cell) : Safe Heap.Anything (push operand) machine := by
  refine .modify (sound.withOperands fun other member => ?_) (.refl _) trivial
  rcases Array.mem_push.mp member with old | rfl
  · exact sound.operands other old
  · exact has

theorem safe_pushCell {cell : CellId} (sound : machine.Sound) (has : machine.heap.Has cell) :
    Safe Heap.Anything (pushCell cell) machine :=
  safe_push sound has

theorem safe_pushContent {content : Content} (sound : machine.Sound)
    (knows : machine.heap.Knows content) : Safe Heap.Anything (pushContent content) machine :=
  .bind (.onHeap sound (Heap.keeps_allocateContent sound.memory knows))
    fun _ _ sound _ has => safe_pushCell sound has

theorem safe_top (sound : machine.Sound) : Safe HasOperand top machine := by
  refine .get ?_
  split
  · rename_i operand last
    exact .pure sound (sound.operands operand (mem_of_back? last))
  · exact .malformed sound _

theorem safe_pop (sound : machine.Sound) : Safe HasOperand pop machine := by
  refine .bind (safe_top sound) fun operand middle sound _ has => ?_
  have popped : Sound { middle with operands := middle.operands.pop } :=
    sound.withOperands fun other member => sound.operands other (mem_of_mem_pop member)
  exact .bind (.modify popped (.refl _) trivial) fun _ _ sound grows (_ : Heap.Anything _ _) =>
    .pure sound (has.mono grows)

theorem safe_popOnto {count : Nat} {cells : List CellId} (sound : machine.Sound)
    (has : HasCells machine.heap cells) : Safe HasCells (popOnto count cells) machine := by
  induction count generalizing machine cells with
  | zero => exact .pure sound has
  | succ count inductionHypothesis =>
    refine .bind (safe_pop sound) fun operand middle sound grows made => ?_
    refine inductionHypothesis sound fun cell member => ?_
    rcases List.mem_cons.mp member with rfl | older
    · exact made
    · exact (has cell older).mono grows

theorem safe_setFlags (sound : machine.Sound) : Safe Heap.Anything setFlags machine :=
  .bind (safe_top sound) fun _ _ sound _ _ =>
    .bind (safe_contentOf sound _) fun _ _ sound _ _ =>
      .modify { sound with } (.refl _) trivial

theorem safe_pushReceiver {cell : CellId} (sound : machine.Sound) (has : machine.heap.Has cell) :
    Safe Heap.Anything (pushReceiver cell) machine := by
  refine .modify (sound.withReceivers fun other member => ?_) (.refl _) trivial
  rcases Array.mem_push.mp member with old | rfl
  · exact sound.receivers other old
  · exact has

theorem safe_receiver (sound : machine.Sound) : Safe Heap.Has receiver machine := by
  refine .get ?_
  split
  · rename_i cell last
    exact .pure sound (sound.receivers cell (mem_of_back? last))
  · rw [if_pos sound.attached]
    exact .pure sound sound.receiver

theorem safe_clearConstruct (sound : machine.Sound) :
    Safe Heap.Anything clearConstruct machine :=
  .modify { sound with } (.refl _) trivial

theorem safe_onScopes {change : Scopes → Scopes} (sound : machine.Sound)
    (changed : Sound { machine with scopes := change machine.scopes }) :
    Safe Heap.Anything (onScopes change) machine := by
  unfold Safe
  rw [onScopes_of_attached sound.attached]
  exact ⟨changed, .refl _, trivial⟩

theorem safe_pushFrame (sound : machine.Sound) : Safe Heap.Anything pushFrame machine :=
  .modify { sound with } (.refl _) trivial

theorem safe_popFrame (sound : machine.Sound) : Safe Heap.Anything popFrame machine := by
  refine .get ?_
  split
  · exact .bind (.modify { sound with } (.refl _) trivial)
      fun _ _ sound _ (_ : Heap.Anything _ _) => .pure sound trivial
  · exact .malformed sound _

theorem safe_cutBack (sound : machine.Sound) (frame : Frame) :
    Safe Heap.Anything (cutBack frame) machine :=
  .modify (sound.cutBack _ _) (.refl _) trivial

theorem safe_leaveFrame (sound : machine.Sound) : Safe Heap.Anything leaveFrame machine :=
  .bind (safe_popFrame sound) fun frame _ sound _ _ =>
    .bind (.modify { sound with } (.refl _) trivial) fun _ _ sound _ (_ : Heap.Anything _ _) =>
      .bind (safe_cutBack sound frame) fun _ _ sound _ _ => .pure sound trivial

theorem safe_restore (sound : machine.Sound) : Safe Heap.Anything restore machine :=
  .bind (safe_popFrame sound) fun frame _ sound _ _ =>
    .bind (.modify { sound with } (.refl _) trivial) fun _ _ sound _ (_ : Heap.Anything _ _) =>
      .bind (safe_cutBack sound frame) fun _ _ sound _ _ => .pure sound trivial

/-! ### Native functions -/

/-- What a native call comes to refers to cells that have been made. -/
def SuitsHostCall (heap : Heap) : HostCall → Prop
  | .value cell => heap.Has cell
  | .enter _ receiver? arguments =>
    (∀ cell, receiver? = some cell → heap.Has cell) ∧ HasCells heap arguments

theorem safe_callArray (sound : machine.Sound) (arguments : List CellId) :
    Safe Heap.Has (callArray arguments) machine := by
  have copies := Safe.onHeap sound (Heap.keeps_arrayOfCopies sound.memory arguments)
  refine .get ?_
  dsimp only
  split
  · split
    · split
      · exact .onHeap sound (Heap.keeps_allocateArray sound.memory _)
      · exact .raise sound _
    · exact copies
  · exact copies

theorem safe_callAssertEqual (sound : machine.Sound) (arguments : List CellId) :
    Safe Heap.Has (callAssertEqual arguments) machine := by
  refine .get ?_
  dsimp only
  split
  · split
    · exact .onHeap sound (Heap.keeps_allocateContent sound.memory trivial)
    · exact .raise sound _
  · exact .raise sound _

theorem safe_callPlain {arguments : List CellId} (sound : machine.Sound) (native : Native)
    (has : HasCells machine.heap arguments) :
    Safe Heap.Has (callPlain native arguments) machine := by
  cases native with
  | print =>
    refine .get (.bind (.modify { sound with } (.refl _) trivial)
      fun _ _ sound _ (_ : Heap.Anything _ _) => ?_)
    exact .onHeap sound (Heap.keeps_allocateContent sound.memory trivial)
  | assertEqual => exact safe_callAssertEqual sound arguments
  | array => exact safe_callArray sound arguments
  | number => exact .get (.onHeap sound (Heap.keeps_allocateContent sound.memory trivial))
  | boolean => exact .get (.onHeap sound (Heap.keeps_allocateContent sound.memory trivial))
  | object => exact .onHeap sound (Heap.keeps_allocateObject sound.memory)
  | echo => exact .onHeap sound (Heap.keeps_firstOrUndefined sound.memory has)
  | invoke => exact .raise sound _

theorem safe_prepared (sound : machine.Sound) (callee : CellId) :
    Safe Heap.Anything (prepared callee) machine := by
  refine .bind (safe_contentOf sound callee) fun content middle sound _ _ => ?_
  split
  · exact .bind (.onHeap sound (Heap.keeps_prepare sound.memory _))
      fun _ _ sound _ _ => .pure sound trivial
  · exact .raise sound _

theorem safe_callHost {native : Native} {receiver? : Option CellId} {arguments : List CellId}
    (sound : machine.Sound) (given : ∀ cell, receiver? = some cell → machine.heap.Has cell)
    (has : HasCells machine.heap arguments) :
    Safe SuitsHostCall (callHost native receiver? arguments) machine := by
  induction arguments generalizing native machine with
  | nil =>
    exact .bind (safe_callPlain sound native has) fun _ _ sound _ made => .pure sound made
  | cons first rest inductionHypothesis =>
    have plain : Safe SuitsHostCall
        (do return HostCall.value (← callPlain native (first :: rest))) machine :=
      .bind (safe_callPlain sound native has) fun _ _ sound _ made => .pure sound made
    have others : HasCells machine.heap rest :=
      fun cell member => has cell (List.mem_cons_of_mem _ member)
    cases native with
    | invoke =>
      refine .bind (safe_prepared sound first) fun function middle sound grows _ => .get ?_
      have given : ∀ cell, receiver? = some cell → middle.heap.Has cell :=
        fun cell same => (given cell same).mono grows
      have others : HasCells middle.heap rest :=
        fun cell member => (others cell member).mono grows
      split
      · exact inductionHypothesis sound given others
      · exact .pure sound ⟨given, others⟩
    | print | assertEqual | array | number | boolean | object | echo => exact plain

/-! ### Calls -/

theorem safe_pushNewReceiver (sound : machine.Sound) (function : FunctionId) :
    Safe Heap.Anything (pushNewReceiver function) machine := by
  have made : Heap.Keeps Heap.Has (do
      let cell ← Heap.allocateObject
      Heap.copyPrototype function ((← get).content cell)
      return cell) machine.heap :=
    Heap.keeps_bind (Heap.keeps_allocateObject sound.memory) fun cell _ closed _ has =>
      Heap.keeps_get (Heap.keeps_bind (Heap.keeps_copyPrototype closed function _)
        fun _ _ closed grows _ => Heap.keeps_pure closed (has.mono grows))
  exact .bind (.onHeap sound made) fun _ _ sound _ has => safe_pushReceiver sound has

theorem safe_bindParameters {arguments : List CellId} (sound : machine.Sound) (names : List Text) :
    Safe Heap.Anything (bindParameters names arguments) machine := by
  induction names generalizing machine arguments with
  | nil => exact .pure sound trivial
  | cons name names inductionHypothesis =>
    have binding {machine : Machine} {cell : CellId} (sound : machine.Sound)
        (has : machine.heap.Has cell) : Safe Heap.Anything (do
          onScopes fun scopes => scopes.bind name cell
          bindParameters names arguments.tail) machine :=
      .bind (safe_onScopes sound (sound.withBinding has name)) fun _ _ sound _ _ =>
        inductionHypothesis sound
    cases arguments with
    | nil =>
      exact .bind (.onHeap sound (Heap.keeps_allocateContent sound.memory trivial))
        fun _ _ sound _ has => binding sound has
    | cons argument rest =>
      exact .bind (.onHeap sound (Heap.keeps_copy sound.memory argument))
        fun _ _ sound _ has => binding sound has

theorem safe_enter {arguments : List CellId} (sound : machine.Sound) (function : FunctionId)
    (construct : Bool) : Safe Heap.Anything (enter function arguments construct) machine := by
  have entering {machine : Machine} (sound : machine.Sound) : Safe Heap.Anything (do
      onScopes Scopes.push
      let body := (← get).heap.function function
      bindParameters body.params arguments
      modify fun machine => { machine with current := body.entry - 1 }) machine := by
    refine .bind (safe_onScopes sound sound.openScope) fun _ _ sound _ _ => .get ?_
    exact .bind (safe_bindParameters sound _) fun _ _ sound _ _ =>
      .modify { sound with } (.refl _) trivial
  unfold enter
  split
  · exact .bind (safe_pushNewReceiver sound function) fun _ _ sound _ _ => entering sound
  · exact entering sound

theorem safe_activate_some {this : CellId} {arguments : List CellId} (sound : machine.Sound)
    (function : FunctionId) (has : machine.heap.Has this) (waiting : Waiting) :
    Safe Heap.Anything (activate function (some this) arguments waiting) machine := by
  refine .bind (.pure sound has) fun cell middle sound _ (has : middle.heap.Has cell) => .get ?_
  refine .bind (safe_pushReceiver sound has) fun _ _ sound _ _ => ?_
  refine .bind (safe_pushFrame sound) fun _ _ sound _ _ => .get ?_
  split
  · refine .bind (safe_popFrame sound) fun _ last sound _ _ => ?_
    have shrunk : Sound { last with receivers := last.receivers.shrink middle.receivers.size } :=
      sound.withReceivers fun cell member => sound.receivers cell (mem_of_mem_shrink member)
    exact .bind (.modify shrunk (.refl _) trivial) fun _ _ sound _ (_ : Heap.Anything _ _) =>
      .raise sound _
  · refine .bind (safe_enter sound function false) fun _ _ sound _ _ => ?_
    exact .bind (.modify { sound with } (.refl _) trivial)
      fun _ _ sound _ (_ : Heap.Anything _ _) => .pure sound trivial

theorem safe_activate {receiver? : Option CellId} {arguments : List CellId} (sound : machine.Sound)
    (function : FunctionId) (given : ∀ cell, receiver? = some cell → machine.heap.Has cell)
    (waiting : Waiting) :
    Safe Heap.Anything (activate function receiver? arguments waiting) machine := by
  cases receiver? with
  | some this => exact safe_activate_some sound function (given this rfl) waiting
  | none =>
    exact .bind (safe_receiver sound) fun this _ sound _ has =>
      safe_activate_some sound function has waiting

theorem safe_finishNative {result : CellId} (sound : machine.Sound) (construct : Bool)
    (has : machine.heap.Has result) :
    Safe Heap.Anything (finishNative construct result) machine := by
  refine .bind (safe_leaveFrame sound) fun _ _ sound grows _ => ?_
  refine .bind (safe_pushCell sound (has.mono grows)) fun _ _ sound further _ => ?_
  split
  · refine .bind (safe_pushReceiver sound ((has.mono grows).mono further)) fun _ _ sound _ _ => ?_
    exact .bind (safe_clearConstruct sound) fun _ _ sound _ _ => safe_setFlags sound
  · exact safe_setFlags sound

theorem safe_throw {suits : Heap → Result → Prop} {fault : Fault} (sound : machine.Sound)
    (other : ∀ breakdown, fault ≠ .breakdown breakdown) :
    Safe suits (throw fault : Action Result) machine :=
  ⟨sound, .refl _, other⟩

theorem safe_leavingFrame {suits : Heap → Result → Prop} {action : Action Result}
    (safe : Safe suits action machine) : Safe suits (leavingFrame action) machine := by
  refine safe.tryCatch fun fault after sound _ other => ?_
  split
  · exact .bind (safe_leaveFrame sound) fun _ _ sound _ _ => safe_throw sound other
  · exact safe_throw sound other

/-- The result of a native call has been made. -/
def SuitsNative (heap : Heap) : CellId ⊕ Activation → Prop
  | .inl cell => heap.Has cell
  | .inr _ => True

theorem safe_callNative {arguments : List CellId} (sound : machine.Sound) (native : Native)
    (construct : Bool) (has : HasCells machine.heap arguments) :
    Safe Heap.Anything (callNative native arguments construct) machine := by
  refine .bind (safe_receiver sound) fun this middle sound grows given => ?_
  have has : HasCells middle.heap arguments := fun cell member => (has cell member).mono grows
  refine .bind (show Safe SuitsNative _ _ from safe_leavingFrame ?_)
    fun way last sound _ suits => ?_
  · have given : ∀ cell, some this = some cell → middle.heap.Has cell :=
      fun cell same => Option.some.inj same ▸ given
    refine .bind (safe_callHost sound given has) fun host after sound _ suits => ?_
    split
    · exact .pure sound suits
    · exact .bind (safe_activate sound _ suits.1 _) fun _ _ sound _ _ => .pure sound trivial
  · split
    · exact .bind (safe_finishNative sound construct suits) fun _ _ sound _ _ =>
        .pure sound trivial
    · exact .pure sound trivial

theorem safe_call (sound : machine.Sound) (count : Nat) :
    Safe Heap.Anything (call count) machine := by
  refine .bind (safe_popOnto sound fun _ member => absurd member List.not_mem_nil)
    fun arguments _ sound _ has => ?_
  refine .bind (safe_pop sound) fun callee after sound grows _ => .get ?_
  have has : HasCells after.heap arguments := fun cell member => (has cell member).mono grows
  dsimp only
  refine .bind (safe_pushFrame sound) fun _ _ sound grows _ => ?_
  have has := fun cell member => (has cell member).mono grows
  refine .bind (safe_clearConstruct sound) fun _ _ sound grows _ => .get ?_
  have has := fun cell member => (has cell member).mono grows
  split
  · exact .bind (safe_popFrame sound) fun _ _ sound _ _ => .raise sound _
  · refine .bind (safe_contentOf sound _) fun content _ sound grows _ => ?_
    have has := fun cell member => (has cell member).mono grows
    split
    · exact .bind (safe_popFrame sound) fun _ _ sound _ _ => .raise sound _
    · refine .bind (.onHeap sound (Heap.keeps_prepare sound.memory _))
        fun _ _ sound grows _ => .get ?_
      have has := fun cell member => (has cell member).mono grows
      split
      · exact safe_callNative sound _ _ has
      · exact .bind (safe_enter sound _ _) fun _ _ sound _ _ => .pure sound trivial

theorem safe_constructed (sound : machine.Sound) (frame : Frame) :
    Safe Heap.Has (constructed frame) machine := by
  refine .get ?_
  split
  · rename_i cell found
    exact .pure sound (sound.receivers cell (Array.mem_of_getElem? found))
  · exact safe_receiver sound

theorem safe_ret (sound : machine.Sound) : Safe Heap.Anything ret machine := by
  refine .bind (safe_pop sound) fun operand middle sound _ has => .get ?_
  have ending {machine : Machine} (sound : machine.Sound)
      (has : machine.heap.Has operand.cell) :
      Safe Heap.Anything (do pushCell operand.cell; onScopes Scopes.pop; setFlags) machine := by
    refine .bind (safe_pushCell sound has) fun _ _ sound _ _ => ?_
    have closed := sound.closeScopes 1
    rw [List.drop_one] at closed
    exact .bind (safe_onScopes sound closed) fun _ _ sound _ _ => safe_setFlags sound
  dsimp only
  split
  · exact .malformed sound _
  · split
    · refine .bind (safe_constructed sound _) fun this _ sound grows made => ?_
      have has := has.mono grows
      refine .bind (safe_restore sound) fun _ _ sound grows _ => ?_
      have has := has.mono grows
      refine .bind (safe_pushReceiver sound (made.mono grows)) fun _ _ sound grows _ => ?_
      have has := has.mono grows
      exact .bind (safe_clearConstruct sound) fun _ _ sound grows _ =>
        ending sound (has.mono grows)
    · exact .bind (safe_restore sound) fun _ _ sound grows _ => ending sound (has.mono grows)

end Machine

end ScriptEngine
