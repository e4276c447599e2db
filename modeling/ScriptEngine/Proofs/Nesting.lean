/-
This file follows a run inside a call. As long as the frame of the call is there, so are the
frames below it; the activations made meanwhile are nested, each above the frames of those made
before it, and there is one scope for each frame that does not belong to a native call. The
only move out of the call is its return. What the caller has left on the two stacks is safe as
long as no move takes from it, because then every frame and every activation inside the call
has its marks above it.
-/

import ScriptEngine.Proofs.Acts
import ScriptEngine.Proofs.Moves

namespace ScriptEngine

open Machine

/-! ### Scopes above others -/

namespace Scopes

/-- There are `count` scopes more than there were. -/
structure Above (count : Nat) (base scopes : Scopes) : Prop where
  opened : scopes.opened.drop count = base.opened
  depth : scopes.depth = count + base.depth
  globals : scopes.globals = base.globals
  receiver : scopes.receiver = base.receiver

namespace Above

variable {count : Nat} {base before after : Scopes}

theorem eq_base (above : Above 0 base after) : after = base := by
  obtain ⟨opened, globals, receiver⟩ := after
  have same : opened = base.opened := above.opened
  rw [same, show globals = base.globals from above.globals,
    show receiver = base.receiver from above.receiver]

theorem retains (above : Above (count + 1) base before) (retains : before.Retains after) :
    Above (count + 1) base after where
  opened := by
    rw [← above.opened, ← List.drop_tail, ← List.drop_tail, retains.outer]
  depth := retains.depth.trans above.depth
  globals := (retains.globals (by rw [above.depth]; omega)).trans above.globals
  receiver := retains.receiver.trans above.receiver

theorem opens (above : Above count base before) (opens : before.Opens after) :
    Above (count + 1) base after where
  opened := by
    rw [← above.opened, ← opens.outer, List.drop_tail]
  depth := by rw [opens.depth, above.depth]; omega
  globals := opens.globals.trans above.globals
  receiver := opens.receiver.trans above.receiver

theorem pop (above : Above (count + 1) base before) : Above count base before.pop where
  opened := (List.drop_tail ..).trans above.opened
  depth := by rw [depth_pop, above.depth]; omega
  globals := above.globals
  receiver := above.receiver

end Above

end Scopes

namespace Configuration

/-! ### Runs -/

/-- A run of moves, each by `Moves`, with the configurations it passes before the last. -/
inductive Run : Configuration → List Configuration → Configuration → Prop where
  | done (configuration : Configuration) : Run configuration [] configuration
  | move {first second last : Configuration} {passed : List Configuration}
    (moves : first.Moves second) (rest : Run second passed last) :
    Run first (first :: passed) last

/-- The configuration that a move leads to, if the run goes on. -/
def next? (configuration : Configuration) : Option Configuration :=
  match advance configuration.pending configuration.machine with
  | .ok (.running pending) machine => some ⟨machine, pending⟩
  | _ => none

/-- The configuration that some moves lead to. -/
def after (configuration : Configuration) : Nat → Configuration
  | 0 => configuration
  | count + 1 => (configuration.next?.getD configuration).after count

theorem moves_of_next? {configuration : Configuration} (goesOn : configuration.next?.isSome) :
    configuration.Moves (configuration.next?.getD configuration) := by
  unfold next? at goesOn ⊢
  unfold Moves
  split at goesOn
  · rename_i equal
    rw [equal]
    rfl
  · cases goesOn

/-- The configurations of so many moves are a `Run`, if each of them lets it go on. -/
theorem run_after (configuration : Configuration) (count : Nat)
    (goesOn : ∀ index < count, (configuration.after index).next?.isSome) :
    Run configuration ((List.range count).map configuration.after) (configuration.after count) := by
  induction count generalizing configuration with
  | zero => exact .done configuration
  | succ count inductionHypothesis =>
    have moves := moves_of_next? (goesOn 0 (Nat.zero_lt_succ _))
    have rest := inductionHypothesis (configuration.next?.getD configuration)
      fun index below => goesOn (index + 1) (Nat.succ_lt_succ below)
    rw [List.range_succ_eq_map, List.map_cons, List.map_map]
    exact .move moves rest

/-- The next move ends the run. -/
inductive Ends (configuration : Configuration) : Outcome → Machine → Prop where
  | finished {result : Option CellId} {final : Machine}
    (ends : advance configuration.pending configuration.machine = .ok (.finished result) final) :
    Ends configuration (.finished result) final
  | failed {fault : Fault} {final : Machine}
    (ends : advance configuration.pending configuration.machine = .error fault final) :
    Ends configuration (.failed fault) final

/-- A `loop` that has come to an end is a `Run` and a last move. -/
theorem exists_run_of_ended {View : Type} {observe : Machine → View → View} {fuel : Nat}
    {pending : List Activation} {view shown : View} {machine final : Machine} {outcome : Outcome}
    (ends : loop observe fuel pending view machine = (outcome, shown, final))
    (ended : outcome ≠ .outOfFuel) :
    ∃ passed last, Run ⟨machine, pending⟩ passed last ∧ last.Ends outcome final := by
  induction fuel generalizing pending view machine with
  | zero =>
    cases ends
    exact absurd rfl ended
  | succ fuel inductionHypothesis =>
    rw [loop] at ends
    cases advanced : advance pending machine with
    | ok progress middle =>
      rw [advanced] at ends
      cases progress with
      | running later =>
        obtain ⟨passed, last, run, finished⟩ := inductionHypothesis ends
        have moves : Moves ⟨machine, pending⟩ ⟨middle, later⟩ := advanced
        exact ⟨_, last, .move moves run, finished⟩
      | finished value =>
        cases ends
        exact ⟨[], ⟨machine, pending⟩, .done _, .finished advanced⟩
    | error fault middle =>
      rw [advanced] at ends
      cases ends
      exact ⟨[], ⟨machine, pending⟩, .done _, .failed advanced⟩

theorem Ends.next?_eq_none {configuration : Configuration} {outcome : Outcome} {final : Machine}
    (ends : configuration.Ends outcome final) : configuration.next? = none := by
  unfold next?
  cases ends with
  | finished ends | failed ends => rw [ends]

/-- How many operands are left once the next move has taken its own. -/
def operandsLeft (configuration : Configuration) : Nat :=
  configuration.machine.operands.size -
    match configuration.machine.nextMove configuration.pending with
    | .execute => (configuration.machine.instruction?.map Instruction.operandsTaken).getD 0
    | .resume _ _ => 1
    | .finish | .leave => 0

/-- How many receivers are left once the next move has taken its own. -/
def receiversLeft (configuration : Configuration) : Nat :=
  configuration.machine.receivers.size -
    match configuration.machine.nextMove configuration.pending with
    | .execute => (configuration.machine.instruction?.map Instruction.receiversTaken).getD 0
    | .resume _ _ | .finish | .leave => 0

/-! ### Nested activations -/

/-- Activations, innermost first, that were made one above the other, all of them with at least
`floor` frames below. -/
def Nested (floor : Nat) : List Activation → (height : Nat) → Prop
  | [], height => floor ≤ height
  | activation :: outer, height =>
    0 < activation.depth ∧ activation.depth ≤ height ∧ Nested floor outer (activation.depth - 1)

theorem Nested.length_le {floor : Nat} {activations : List Activation} {height : Nat}
    (nested : Nested floor activations height) : floor + activations.length ≤ height := by
  induction activations generalizing height with
  | nil => exact nested
  | cons activation outer inductionHypothesis =>
    obtain ⟨positive, reached, lower⟩ := nested
    have bound := inductionHypothesis lower
    rw [List.length_cons]
    omega

theorem Nested.mono {floor : Nat} {activations : List Activation} {height higher : Nat}
    (nested : Nested floor activations height) (atLeast : height ≤ higher) :
    Nested floor activations higher := by
  cases activations with
  | nil => exact Nat.le_trans nested atLeast
  | cons activation outer => exact ⟨nested.1, Nat.le_trans nested.2.1 atLeast, nested.2.2⟩

/-- A frame above all activations that are `Nested` can be removed. -/
theorem Nested.pop {floor : Nat} {activations : List Activation} {height : Nat}
    (nested : Nested floor activations height) (more : floor < height)
    (lower : ∀ activation ∈ activations.head?, activation.depth < height) :
    Nested floor activations (height - 1) := by
  cases activations with
  | nil => exact Nat.le_sub_one_of_lt more
  | cons activation outer =>
    exact ⟨nested.1, Nat.le_sub_one_of_lt (lower activation rfl), nested.2.2⟩

/-! ### Inside a call -/

/-- The run is inside the call whose frame is the last of `bottom`: the scopes below the call are
`base`, the activations that were there before it are `outer`, and `inner` have been made since. -/
structure Inside (base : Scopes) (bottom : List Frame) (outer inner : List Activation)
    (configuration : Configuration) : Prop where
  frames : bottom <+: configuration.machine.frames.toList
  pending : configuration.pending = inner ++ outer
  nested : Nested bottom.length inner configuration.machine.frames.size
  scopes : ∃ count, count + inner.length + bottom.length = configuration.machine.frames.size + 1 ∧
    Scopes.Above count base configuration.machine.scopes

/-- The caller's lowest operands and receivers, up to the given heights, are in place, and every
mark set inside the call lies above them. -/
structure Keeps (caller : Machine) (operandHeight receiverHeight : Nat) (bottom : List Frame)
    (inner : List Activation) (configuration : Configuration) : Prop where
  operands : operandHeight ≤ configuration.machine.operands.size ∧
    configuration.machine.cells.take operandHeight = caller.cells.take operandHeight
  receivers : receiverHeight ≤ configuration.machine.receivers.size ∧
    configuration.machine.receivers.toList.take receiverHeight =
      caller.receivers.toList.take receiverHeight
  frames : ∀ frame ∈ configuration.machine.frames.toList.drop bottom.length,
    operandHeight ≤ frame.operandMark ∧ receiverHeight ≤ frame.receiverMark
  activations : ∀ activation ∈ inner, receiverHeight ≤ activation.receiverMark

/-! ### Returns -/

/-- What lies below a mark is there after the stack is cut back to it. -/
theorem take_shrink {Value : Type} {values : Array Value} {lower : List Value} {height mark : Nat}
    (kept : height ≤ values.size ∧ values.toList.take height = lower) (above : height ≤ mark) :
    height ≤ (values.shrink mark).size ∧ (values.shrink mark).toList.take height = lower := by
  rw [Array.size_shrink, Array.toList_shrink, List.take_take, Nat.min_eq_left above]
  exact ⟨Nat.le_min.mpr ⟨above, kept.1⟩, kept.2⟩

theorem take_push {Value : Type} {values : Array Value} {lower : List Value} {height : Nat}
    (kept : height ≤ values.size ∧ values.toList.take height = lower) (value : Value) :
    height ≤ (values.push value).size ∧ (values.push value).toList.take height = lower := by
  rw [Array.size_push, Array.toList_push,
    List.take_append_of_le_length (by simpa using kept.1)]
  exact ⟨Nat.le_succ_of_le kept.1, kept.2⟩

/-- The next move is a return, and it leads there. -/
structure Returns (before : Configuration) (operand : Operand) (frame : Frame)
    (after : Configuration) : Prop where
  executes : before.Executes
  instruction : ∃ instruction, before.machine.instruction? = some instruction ∧
    instruction.opcode = .ret
  topmost : before.machine.operands.back? = some operand
  saved : before.machine.frames.back? = some frame
  after : after = ⟨(scriptReturn operand.cell frame before.machine).stepped, before.pending⟩

theorem Returns.frames {before after : Configuration} {operand : Operand} {frame : Frame}
    (returns : before.Returns operand frame after) :
    after.machine.frames = before.machine.frames.pop := by
  rw [returns.after]
  exact frames_stepped _

theorem Returns.operands {before after : Configuration} {operand : Operand} {frame : Frame}
    (returns : before.Returns operand frame after) :
    after.machine.operands =
      (before.machine.operands.pop.shrink frame.operandMark).push { cell := operand.cell } := by
  rw [returns.after]
  exact operands_stepped _

theorem Returns.operandsLeft {before after : Configuration} {operand : Operand} {frame : Frame}
    (returns : before.Returns operand frame after) :
    before.operandsLeft = before.machine.operands.size - 1 := by
  obtain ⟨instruction, present, isReturn⟩ := returns.instruction
  have executes := returns.executes
  unfold Executes at executes
  unfold Configuration.operandsLeft
  rw [executes]
  dsimp only
  rw [present, Option.map_some, Option.getD_some]
  unfold Instruction.operandsTaken
  rw [isReturn]

/-- A move that `Returns` cuts the receivers back to the mark of its frame, and may push one. -/
theorem Returns.take_receivers {before after : Configuration} {operand : Operand} {frame : Frame}
    {lower : List CellId} {height : Nat} (returns : before.Returns operand frame after)
    (kept : height ≤ before.machine.receivers.size ∧
      before.machine.receivers.toList.take height = lower)
    (above : height ≤ frame.receiverMark) :
    height ≤ after.machine.receivers.size ∧
      after.machine.receivers.toList.take height = lower := by
  have cut := take_shrink kept above
  rw [returns.after, receivers_stepped]
  unfold scriptReturn
  dsimp only
  split
  · exact take_push cut _
  · exact cut

/-! ### One move inside a call -/

section Step

variable {base : Scopes} {bottom : List Frame} {outer inner : List Activation}
  {caller : Machine} {operandHeight receiverHeight : Nat} {before after : Configuration}

theorem Executes.depth_lt {machine : Machine} {activation : Activation}
    {pending : List Activation} (executes : Executes ⟨machine, activation :: pending⟩) :
    activation.depth < machine.frames.size := by
  unfold Executes at executes
  rw [nextMove] at executes
  split at executes
  · assumption
  · cases executes

theorem Executes.head_lt {configuration : Configuration} (executes : configuration.Executes) :
    ∀ activation ∈ configuration.pending.head?,
      activation.depth < configuration.machine.frames.size := by
  obtain ⟨machine, pending⟩ := configuration
  cases pending with
  | nil => simp
  | cons activation rest =>
    rintro _ ⟨⟩
    exact executes.depth_lt

theorem Executes.current_ne {configuration : Configuration} (executes : configuration.Executes) :
    configuration.machine.current ≠ configuration.machine.stop := by
  obtain ⟨machine, pending⟩ := configuration
  unfold Executes at executes
  cases pending with
  | nil =>
    rw [nextMove] at executes
    split at executes
    · cases executes
    · assumption
  | cons activation rest =>
    rw [nextMove] at executes
    split at executes
    · split at executes
      · cases executes
      · assumption
    · cases executes

theorem operandsLeft_of_executes {machine : Machine} {pending : List Activation}
    {instruction : Instruction CellId} (executes : Executes ⟨machine, pending⟩)
    (present : machine.instruction? = some instruction) :
    operandsLeft ⟨machine, pending⟩ = machine.operands.size - instruction.operandsTaken ∧
      receiversLeft ⟨machine, pending⟩ = machine.receivers.size - instruction.receiversTaken := by
  unfold operandsLeft receiversLeft
  unfold Executes at executes
  rw [executes]
  dsimp only
  rw [present]
  exact ⟨rfl, rfl⟩

/-- A configuration that `Calls` leaves all but its arguments and its callee, by `operandsLeft` and
`receiversLeft`. -/
theorem operandsLeft_of_calls {machine : Machine} {pending : List Activation} {count : Nat}
    {function : FunctionId} (executes : Executes ⟨machine, pending⟩)
    (calls : machine.Calls count function) :
    operandsLeft ⟨machine, pending⟩ = machine.operands.size - (count + 1) ∧
      receiversLeft ⟨machine, pending⟩ = machine.receivers.size := by
  obtain ⟨instruction, present, _⟩ := calls.instruction
  obtain ⟨taken, popped⟩ := calls.operandsTaken present
  have left := operandsLeft_of_executes executes present
  rwa [taken, popped] at left

/-- A move that `Spares` what lies below the heights `Keeps` it. -/
theorem Keeps.spared {taken popped : Nat} {inner' : List Activation}
    (keeps : Keeps caller operandHeight receiverHeight bottom inner before)
    (spares : Spares taken popped before.machine after.machine)
    (operands : operandHeight ≤ before.machine.operands.size - taken)
    (receivers : receiverHeight ≤ before.machine.receivers.size - popped)
    (frames : ∀ frame ∈ after.machine.frames.toList.drop bottom.length,
      operandHeight ≤ frame.operandMark ∧ receiverHeight ≤ frame.receiverMark)
    (activations : ∀ activation ∈ inner', receiverHeight ≤ activation.receiverMark) :
    Keeps caller operandHeight receiverHeight bottom inner' after := by
  refine ⟨?_, ?_, frames, activations⟩
  · cases operandHeight with
    | zero => exact ⟨Nat.zero_le _, rfl⟩
    | succ height =>
      obtain ⟨room, lower⟩ := spares.operands (height + 1) (by omega)
      exact ⟨room, lower.trans keeps.operands.2⟩
  · cases receiverHeight with
    | zero => exact ⟨Nat.zero_le _, rfl⟩
    | succ height =>
      obtain ⟨room, lower⟩ := spares.receivers (height + 1) (by omega)
      exact ⟨room, lower.trans keeps.receivers.2⟩

theorem Inside.bottom_le (inside : Inside base bottom outer inner before) :
    bottom.length ≤ before.machine.frames.size :=
  Nat.le_trans (Nat.le_add_right _ _) inside.nested.length_le

/-- A move that changes neither frames nor activations, so that they are `Alike`, stays `Inside`. -/
theorem Inside.alike (inside : Inside base bottom outer inner before)
    (alike : before.machine.Alike after.machine) (pending : after.pending = before.pending) :
    Inside base bottom outer inner after := by
  obtain ⟨count, balance, above⟩ := inside.scopes
  have bound := inside.nested.length_le
  obtain ⟨fewer, rfl⟩ : ∃ fewer, count = fewer + 1 := ⟨count - 1, by omega⟩
  refine ⟨?_, pending.trans inside.pending, ?_, fewer + 1, ?_, above.retains alike.scopes⟩
  · rw [alike.frames]
    exact inside.frames
  · rw [alike.frames]
    exact inside.nested
  · rw [alike.frames]
    exact balance

/-- A call that enters a script function stays `Inside`. -/
theorem Inside.entered {frame : Frame} (inside : Inside base bottom outer inner before)
    (frames : after.machine.frames = before.machine.frames.push frame)
    (opens : before.machine.scopes.Opens after.machine.scopes)
    (pending : after.pending = before.pending) : Inside base bottom outer inner after := by
  obtain ⟨count, balance, above⟩ := inside.scopes
  refine ⟨?_, pending.trans inside.pending, ?_, count + 1, ?_, above.opens opens⟩
  · rw [frames, Array.toList_push]
    exact inside.frames.trans (List.prefix_append _ _)
  · rw [frames, Array.size_push]
    exact inside.nested.mono (Nat.le_succ _)
  · rw [frames, Array.size_push]
    omega

/-- A native call that has a script function entered makes one more activation, and stays `Inside`.
-/
theorem Inside.suspended {first second : Frame} {activation : Activation}
    (inside : Inside base bottom outer inner before)
    (frames : after.machine.frames = (before.machine.frames.push first).push second)
    (opens : before.machine.scopes.Opens after.machine.scopes)
    (depth : activation.depth = before.machine.frames.size + 1)
    (pending : after.pending = activation :: before.pending) :
    Inside base bottom outer (activation :: inner) after := by
  obtain ⟨count, balance, above⟩ := inside.scopes
  refine ⟨?_, ?_, ?_, count + 1, ?_, above.opens opens⟩
  · rw [frames, Array.toList_push, Array.toList_push]
    exact (inside.frames.trans (List.prefix_append _ _)).trans (List.prefix_append _ _)
  · rw [pending, inside.pending]
    rfl
  · refine ⟨by omega, ?_, ?_⟩
    · rw [frames, Array.size_push, Array.size_push]
      omega
    · rw [depth]
      exact inside.nested
  · rw [frames, Array.size_push, Array.size_push, List.length_cons]
    omega

/-- Where frames are left above the bottom one can be removed. -/
theorem prefix_pop {frames : Array Frame} (start : bottom <+: frames.toList)
    (more : bottom.length < frames.size) : bottom <+: frames.pop.toList := by
  refine List.prefix_of_prefix_length_le start ?_ ?_
  · rw [Array.toList_pop]
    exact List.dropLast_prefix _
  · have size : frames.pop.toList.length = frames.size - 1 := by simp
    omega

/-- A native call whose script function has returned makes one activation less, and stays `Inside`.
-/
theorem Inside.resumed {activation : Activation}
    (inside : Inside base bottom outer (activation :: inner) before)
    (reached : before.machine.frames.size ≤ activation.depth)
    (frames : after.machine.frames = before.machine.frames.pop)
    (scopes : after.machine.scopes = before.machine.scopes)
    (pending : before.pending = activation :: after.pending) :
    Inside base bottom outer inner after := by
  obtain ⟨count, balance, above⟩ := inside.scopes
  obtain ⟨positive, atMost, lower⟩ := inside.nested
  have equal : activation.depth = before.machine.frames.size := Nat.le_antisymm atMost reached
  have bound := lower.length_le
  refine ⟨?_, ?_, ?_, count, ?_, ?_⟩
  · rw [frames]
    exact prefix_pop inside.frames (by omega)
  · have same := pending.symm.trans inside.pending
    rw [List.cons_append] at same
    exact (List.cons.inj same).2
  · rw [frames, Array.size_pop, ← equal]
    exact lower
  · rw [frames, Array.size_pop]
    rw [List.length_cons] at balance
    omega
  · rw [scopes]
    exact above

/-- A return of a function that was called inside stays `Inside`. -/
theorem Inside.returned (inside : Inside base bottom outer inner before)
    (executes : before.Executes) (more : bottom.length < before.machine.frames.size)
    (frames : after.machine.frames = before.machine.frames.pop)
    (scopes : after.machine.scopes = before.machine.scopes.pop)
    (pending : after.pending = before.pending) : Inside base bottom outer inner after := by
  obtain ⟨count, balance, above⟩ := inside.scopes
  have nested : Nested bottom.length inner (before.machine.frames.size - 1) := by
    refine inside.nested.pop more fun activation member => ?_
    refine executes.head_lt activation ?_
    rw [inside.pending, List.head?_append, Option.mem_def.mp member]
    rfl
  have bound := nested.length_le
  obtain ⟨fewer, rfl⟩ : ∃ fewer, count = fewer + 1 := ⟨count - 1, by omega⟩
  refine ⟨?_, pending.trans inside.pending, ?_, fewer, ?_, ?_⟩
  · rw [frames]
    exact prefix_pop inside.frames more
  · rw [frames, Array.size_pop]
    exact nested
  · rw [frames, Array.size_pop]
    omega
  · rw [scopes]
    exact above.pop

/-! ### What one move keeps of the stacks -/

theorem mem_drop_push {frames : Array Frame} {frame member : Frame} {floor : Nat}
    (room : floor ≤ frames.size) (found : member ∈ (frames.push frame).toList.drop floor) :
    member ∈ frames.toList.drop floor ∨ member = frame := by
  rw [Array.toList_push, List.drop_append_of_le_length (by simpa using room)] at found
  rcases List.mem_append.mp found with lower | top
  · exact .inl lower
  · exact .inr (List.mem_singleton.mp top)

theorem mem_drop_pop {frames : Array Frame} {member : Frame} {floor : Nat}
    (found : member ∈ frames.pop.toList.drop floor) : member ∈ frames.toList.drop floor := by
  rw [Array.toList_pop] at found
  exact ((List.dropLast_sublist _).drop floor).subset found

theorem back_mem_drop {frames : Array Frame} {frame : Frame} {floor : Nat}
    (saved : frames.back? = some frame) (more : floor < frames.size) :
    frame ∈ frames.toList.drop floor := by
  obtain ⟨lower, rfl⟩ := Array.back?_eq_some_iff.mp saved
  rw [Array.size_push] at more
  rw [Array.toList_push,
    List.drop_append_of_le_length (by simpa using Nat.le_of_lt_succ more)]
  exact List.mem_append_right _ (List.mem_singleton_self _)

/-- A result that replaces what lies above a mark leaves the rest. -/
theorem cells_cut {machine later : Machine} {operand : Operand} {mark height : Nat}
    (operands : later.operands = (machine.operands.pop.shrink mark).push operand)
    (above : height ≤ mark) (room : height ≤ machine.operands.size - 1) :
    height ≤ later.operands.size ∧ later.cells.take height = machine.cells.take height := by
  have popped : height ≤ machine.operands.pop.size ∧
      machine.operands.pop.toList.take height = machine.operands.toList.take height := by
    rw [Array.size_pop, Array.toList_pop, List.dropLast_eq_take, List.take_take,
      Array.length_toList, Nat.min_eq_left room]
    exact ⟨room, rfl⟩
  obtain ⟨size, lower⟩ := take_push (take_shrink popped above) operand
  rw [cells, cells, operands, ← List.map_take, ← List.map_take, lower]
  exact ⟨size, rfl⟩

/-- Leaving a frame made inside the call keeps what lies below the heights. -/
theorem Keeps.left {frame : Frame} {operand : Operand} {inner' : List Activation}
    (keeps : Keeps caller operandHeight receiverHeight bottom inner before)
    (more : bottom.length < before.machine.frames.size)
    (saved : before.machine.frames.back? = some frame)
    (room : operandHeight ≤ before.machine.operands.size - 1)
    (frames : after.machine.frames = before.machine.frames.pop)
    (operands : after.machine.operands =
      (before.machine.operands.pop.shrink frame.operandMark).push operand)
    (receivers : receiverHeight ≤ frame.receiverMark →
      receiverHeight ≤ after.machine.receivers.size ∧
      after.machine.receivers.toList.take receiverHeight =
        caller.receivers.toList.take receiverHeight)
    (activations : ∀ activation ∈ inner', receiverHeight ≤ activation.receiverMark) :
    Keeps caller operandHeight receiverHeight bottom inner' after := by
  obtain ⟨operandsAbove, receiversAbove⟩ := keeps.frames frame (back_mem_drop saved more)
  obtain ⟨size, lower⟩ := cells_cut operands operandsAbove room
  refine ⟨⟨size, lower.trans keeps.operands.2⟩, receivers receiversAbove, ?_, activations⟩
  intro member found
  rw [frames] at found
  exact keeps.frames member (mem_drop_pop found)

/-- The call goes on: the run is `Inside`, and the move `Keeps` what lies below some heights if it
takes nothing from it. -/
def GoesOn (base : Scopes) (bottom : List Frame) (outer inner : List Activation)
    (before after : Configuration) : Prop :=
  ∃ inner', Inside base bottom outer inner' after ∧
    ∀ caller operandHeight receiverHeight, operandHeight ≤ before.operandsLeft →
      receiverHeight ≤ before.receiversLeft →
      Keeps caller operandHeight receiverHeight bottom inner before →
      Keeps caller operandHeight receiverHeight bottom inner' after

theorem goesOn_of_alike {machine later : Machine} {pending : List Activation}
    {instruction : Instruction CellId}
    (inside : Inside base bottom outer inner ⟨machine, pending⟩)
    (executes : Executes ⟨machine, pending⟩) (present : machine.instruction? = some instruction)
    (alike : machine.Alike later)
    (spares : Spares instruction.operandsTaken instruction.receiversTaken machine later) :
    GoesOn base bottom outer inner ⟨machine, pending⟩ ⟨later, pending⟩ := by
  refine ⟨inner, inside.alike alike rfl, ?_⟩
  intro caller operandHeight receiverHeight operands receivers keeps
  obtain ⟨operandsLeft, receiversLeft⟩ := operandsLeft_of_executes executes present
  refine keeps.spared spares (operandsLeft ▸ operands) (receiversLeft ▸ receivers) ?_
    keeps.activations
  intro frame member
  exact keeps.frames frame (by rw [← alike.frames]; exact member)

theorem goesOn_of_ret {operand : Operand} {frame : Frame}
    (inside : Inside base bottom outer inner before)
    (returns : before.Returns operand frame after)
    (more : bottom.length < before.machine.frames.size) :
    GoesOn base bottom outer inner before after := by
  refine ⟨inner, inside.returned returns.executes more returns.frames ?_ ?_, ?_⟩
  · rw [returns.after]
    exact scopes_stepped _
  · rw [returns.after]
  intro caller operandHeight receiverHeight operands receivers keeps
  exact keeps.left more returns.saved (returns.operandsLeft ▸ operands) returns.frames
    returns.operands (returns.take_receivers keeps.receivers) keeps.activations

theorem goesOn_of_enter {machine later : Machine} {pending : List Activation} {count : Nat}
    {function : FunctionId} (inside : Inside base bottom outer inner ⟨machine, pending⟩)
    (executes : Executes ⟨machine, pending⟩) (calls : machine.Calls count function)
    (entered : Entered (machine.ready count function) later) :
    GoesOn base bottom outer inner ⟨machine, pending⟩ ⟨later.stepped, pending⟩ := by
  have frames : later.stepped.frames = machine.frames.push (machine.callFrame count) :=
    (frames_stepped _).trans entered.frames
  refine ⟨inner, inside.entered frames (by rw [scopes_stepped]; exact entered.scopes) rfl, ?_⟩
  intro caller operandHeight receiverHeight operands receivers keeps
  obtain ⟨operandsLeft, receiversLeft⟩ := operandsLeft_of_calls executes calls
  rw [operandsLeft] at operands
  rw [receiversLeft] at receivers
  refine keeps.spared (spares_entered entered).stepped operands receivers ?_ keeps.activations
  intro frame member
  rw [frames] at member
  rcases mem_drop_push inside.bottom_le member with lower | rfl
  · exact keeps.frames frame lower
  · exact ⟨operands, receivers⟩

theorem goesOn_of_suspend {native : Native} {receiver? : Option CellId} {arguments : List CellId}
    {machine middle later : Machine} {pending : List Activation} {count : Nat}
    {function : FunctionId} {call : HostCall} {waiting : Waiting}
    (inside : Inside base bottom outer inner ⟨machine, pending⟩)
    (executes : Executes ⟨machine, pending⟩) (calls : machine.Calls count function)
    (hosted : callHost native receiver? arguments (machine.ready count function) = .ok call middle)
    (activated : Activated middle later) :
    GoesOn base bottom outer inner ⟨machine, pending⟩
      ⟨later, middle.activation waiting :: pending⟩ := by
  obtain ⟨saved, lower, same, scopes, _⟩ := callHost_ready hosted
  have frames := activated.frames
  rw [saved] at frames
  have depth : (middle.activation waiting).depth = machine.frames.size + 1 := by
    unfold activation
    rw [saved, Array.size_push]
  have height : middle.operands.size = machine.operands.size - (count + 1) := by
    rw [lower, Array.size_shrink, Nat.min_eq_left (Nat.sub_le _ _)]
  refine ⟨middle.activation waiting :: inner,
    inside.suspended frames (by rw [← scopes]; exact activated.scopes) depth rfl, ?_⟩
  intro caller operandHeight receiverHeight operands receivers keeps
  obtain ⟨operandsLeft, receiversLeft⟩ := operandsLeft_of_calls executes calls
  rw [operandsLeft] at operands
  rw [receiversLeft] at receivers
  refine keeps.spared (spares_activated hosted activated) operands receivers ?_ ?_
  · intro frame member
    rw [frames] at member
    rcases mem_drop_push (by rw [Array.size_push]; exact Nat.le_succ_of_le inside.bottom_le) member
      with below | rfl
    · rcases mem_drop_push inside.bottom_le below with below | rfl
      · exact keeps.frames frame below
      · exact ⟨operands, receivers⟩
    · refine ⟨height.symm ▸ operands, ?_⟩
      rw [same]
      exact Nat.le_succ_of_le receivers
  · intro made member
    rcases List.mem_cons.mp member with rfl | older
    · unfold activation
      rw [same]
      exact receivers
    · exact keeps.activations made older

theorem goesOn_of_resume {machine : Machine} {activation : Activation} {pending : List Activation}
    {construct : Bool} {operand : Operand} {frame : Frame}
    (inside : Inside base bottom outer (activation :: inner) ⟨machine, activation :: pending⟩)
    (reached : machine.frames.size ≤ activation.depth)
    (saved : machine.frames.back? = some frame) :
    GoesOn base bottom outer (activation :: inner) ⟨machine, activation :: pending⟩
      ⟨(nativeReturn construct operand.cell frame (machine.concluded activation)).stepped,
        pending⟩ := by
  refine ⟨inner, inside.resumed reached (frames_stepped _) (scopes_stepped _) rfl, ?_⟩
  intro caller operandHeight receiverHeight operands receivers keeps
  have bound := inside.nested.length_le
  dsimp only [List.length_cons] at bound
  have left : operandsLeft ⟨machine, activation :: pending⟩ = machine.operands.size - 1 := by
    unfold operandsLeft
    rw [nextMove, if_neg (Nat.not_lt_of_le reached)]
  have pushed : (nativeReturn construct operand.cell frame
      (machine.concluded activation)).stepped.operands =
        (machine.operands.pop.shrink frame.operandMark).push { cell := operand.cell } :=
    operands_stepped _
  refine keeps.left (by dsimp only; omega) saved (left ▸ operands) (frames_stepped _) pushed ?_
    fun other member => keeps.activations other (List.mem_cons_of_mem _ member)
  intro above
  rw [receivers_stepped]
  have cut := take_shrink (take_shrink keeps.receivers
    (keeps.activations activation (List.mem_cons_self ..))) above
  unfold nativeReturn
  dsimp only
  split
  · exact take_push cut _
  · exact cut

/-- From inside a call a move stays `Inside` or is the one that `Returns` from the call. -/
theorem Step.stays (step : before.Step after) (inside : Inside base bottom outer inner before)
    (closed : ∀ activation ∈ outer.head?, activation.depth < bottom.length) :
    GoesOn base bottom outer inner before after ∨
      (inner = [] ∧ before.machine.frames.toList = bottom ∧
        ∃ operand frame, before.Returns operand frame after) := by
  cases step with
  | plain executes present noReturn noCall alike spares =>
    exact .inl (goesOn_of_alike inside executes present alike spares)
  | native executes calls kind hosted =>
    obtain ⟨instruction, present, _⟩ := calls.instruction
    obtain ⟨taken, popped⟩ := calls.operandsTaken present
    refine .inl (goesOn_of_alike inside executes present (alike_nativeReturn hosted).stepped ?_)
    rw [taken, popped]
    exact (spares_nativeReturn hosted).stepped
  | @ret machine pending instruction operand frame executes present returns topmost saved =>
    have returned : Returns ⟨machine, pending⟩ operand frame _ :=
      ⟨executes, ⟨instruction, present, returns⟩, topmost, saved, rfl⟩
    rcases Nat.lt_or_ge bottom.length machine.frames.size with more | few
    · exact .inl (goesOn_of_ret inside returned more)
    · right
      have bound := inside.nested.length_le
      dsimp only at bound
      refine ⟨List.eq_nil_of_length_eq_zero (by omega), ?_, operand, frame, returned⟩
      refine (inside.frames.eq_of_length ?_).symm
      exact Nat.le_antisymm inside.frames.length_le few
  | enter executes calls script entered =>
    exact .inl (goesOn_of_enter inside executes calls entered)
  | suspend executes calls kind hosted activated =>
    exact .inl (goesOn_of_suspend inside executes calls hosted activated)
  | @resume machine activation pending construct operand frame reached waiting topmost enough
      saved =>
    left
    cases inner with
    | nil =>
      have waits : activation :: pending = outer := inside.pending
      have low := closed activation (by rw [← waits]; rfl)
      exact absurd (Nat.lt_of_lt_of_le low inside.bottom_le) (Nat.not_lt_of_le reached)
    | cons top rest =>
      have waits : activation :: pending = top :: rest ++ outer := inside.pending
      obtain ⟨rfl, _⟩ := List.cons.inj waits
      exact goesOn_of_resume inside reached saved

end Step

/-! ### Whole runs inside a call -/

theorem Run.cases_move {first last : Configuration} {passed : List Configuration}
    (run : Run first passed last) (moved : passed ≠ []) :
    ∃ second rest, passed = first :: rest ∧ first.Moves second ∧ Run second rest last := by
  cases run with
  | done => exact absurd rfl moved
  | move moves rest => exact ⟨_, _, rfl, moves, rest⟩

/-- A run that starts `Inside` a call and ends outside passes the configuration that `Returns` from
it, and is inside all the way up to there. -/
theorem Run.exists_return {base : Scopes} {bottom : List Frame} {outer inner : List Activation}
    {first last : Configuration} {passed : List Configuration} (run : Run first passed last)
    (inside : Inside base bottom outer inner first)
    (closed : ∀ activation ∈ outer.head?, activation.depth < bottom.length)
    (outside : last.machine.frames.size < bottom.length) :
    ∃ body before after rest operand frame, passed = body ++ before :: rest ∧
      (∀ configuration ∈ body, ∃ made, Inside base bottom outer made configuration) ∧
      Inside base bottom outer [] before ∧ before.machine.frames.toList = bottom ∧
      before.Returns operand frame after ∧ Run after rest last ∧
      ∀ caller operandHeight receiverHeight,
        (∀ configuration ∈ body, operandHeight ≤ configuration.operandsLeft) →
        (∀ configuration ∈ body, receiverHeight ≤ configuration.receiversLeft) →
        Keeps caller operandHeight receiverHeight bottom inner first →
        Keeps caller operandHeight receiverHeight bottom [] before := by
  induction run generalizing inner with
  | done configuration => exact absurd inside.bottom_le (Nat.not_le_of_lt outside)
  | @move first second last passed moves rest inductionHypothesis =>
    rcases moves.step.stays inside closed with ⟨inner', stays, keeping⟩ | ⟨rfl, equal, ends⟩
    · obtain ⟨body, before, after, remaining, operand, frame, split, within, still, whole, returns,
        later, keeps⟩ := inductionHypothesis stays outside
      refine ⟨first :: body, before, after, remaining, operand, frame, by rw [split]; rfl, ?_,
        still, whole, returns, later, ?_⟩
      · intro configuration member
        rcases List.mem_cons.mp member with rfl | further
        · exact ⟨inner, inside⟩
        · exact within configuration further
      intro caller operandHeight receiverHeight operands receivers kept
      refine keeps caller operandHeight receiverHeight ?_ ?_ ?_
      · exact fun configuration member => operands configuration (List.mem_cons_of_mem _ member)
      · exact fun configuration member => receivers configuration (List.mem_cons_of_mem _ member)
      · exact keeping caller operandHeight receiverHeight (operands first (List.mem_cons_self ..))
          (receivers first (List.mem_cons_self ..)) kept
    · obtain ⟨operand, frame, returns⟩ := ends
      exact ⟨[], first, second, passed, operand, frame, rfl, by simp, inside, equal, returns, rest,
        fun _ _ _ _ _ kept => kept⟩

/-- A run from `Inside` a function that has just been entered to somewhere outside passes its
return. -/
theorem Run.exists_return_of_entered {base : Scopes} {entered last : Configuration}
    {passed : List Configuration} (run : Run entered passed last)
    (above : Scopes.Above 1 base entered.machine.scopes)
    (closed : ∀ activation ∈ entered.pending.head?,
      activation.depth < entered.machine.frames.size)
    (outside : last.machine.frames.size < entered.machine.frames.size) :
    ∃ body before after rest operand frame, passed = body ++ before :: rest ∧
      (∀ configuration ∈ body ++ [before], ∃ made,
        Inside base entered.machine.frames.toList entered.pending made configuration) ∧
      before.machine.frames = entered.machine.frames ∧ before.pending = entered.pending ∧
      before.Returns operand frame after ∧ after.machine.scopes = base ∧ Run after rest last ∧
      ∀ caller taken operandHeight receiverHeight, Spares taken 0 caller entered.machine →
        operandHeight + taken ≤ caller.operands.size → receiverHeight ≤ caller.receivers.size →
        (∀ configuration ∈ body, operandHeight ≤ configuration.operandsLeft) →
        (∀ configuration ∈ body, receiverHeight ≤ configuration.receiversLeft) →
        Keeps caller operandHeight receiverHeight entered.machine.frames.toList [] before := by
  have size : entered.machine.frames.toList.length = entered.machine.frames.size :=
    Array.length_toList
  have inside : Inside base entered.machine.frames.toList entered.pending [] entered := by
    refine ⟨List.prefix_rfl, rfl, Nat.le_of_eq size, 1, ?_, above⟩
    rw [size]
    exact Nat.add_comm _ _
  obtain ⟨body, before, after, rest, operand, frame, split, within, still, whole, returns, later,
    keeps⟩ := run.exists_return inside (size.symm ▸ closed) (size.symm ▸ outside)
  refine ⟨body, before, after, rest, operand, frame, split, ?_, Array.toList_inj.mp whole,
    still.pending, returns, ?_, later, ?_⟩
  · intro configuration member
    rcases List.mem_append.mp member with lower | top
    · exact within configuration lower
    · rw [List.mem_singleton.mp top]
      exact ⟨[], still⟩
  · obtain ⟨count, balance, above⟩ := still.scopes
    have one : count = 0 + 1 := by
      rw [Array.toList_inj.mp whole, size] at balance
      simp at balance
      omega
    rw [one] at above
    rw [returns.after]
    exact (scopes_stepped _).trans above.pop.eq_base
  · intro caller taken operandHeight receiverHeight spares room receiverRoom operands receivers
    refine keeps caller operandHeight receiverHeight operands receivers ?_
    refine ⟨spares.operands _ room, spares.receivers _ receiverRoom, ?_, by simp⟩
    rw [List.drop_length]
    simp

theorem Moves.setting {before after : Configuration} (moves : before.Moves after) :
    after.machine.setting = before.machine.setting := by
  have same := (acts_advance before.pending before.machine).setting
  rwa [leftBy_of_ok moves] at same

/-- A run changes neither the program nor the limits of the machine. -/
theorem Run.setting {first last : Configuration} {passed : List Configuration}
    (run : Run first passed last) :
    (∀ configuration ∈ passed, configuration.machine.setting = first.machine.setting) ∧
      last.machine.setting = first.machine.setting := by
  induction run with
  | done configuration => exact ⟨by simp, rfl⟩
  | @move first second last passed moves rest inductionHypothesis =>
    have same := moves.setting
    refine ⟨fun configuration member => ?_, inductionHypothesis.2.trans same⟩
    rcases List.mem_cons.mp member with rfl | later
    · rfl
    · exact (inductionHypothesis.1 configuration later).trans same

end Configuration

end ScriptEngine
