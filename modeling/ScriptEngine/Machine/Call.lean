/-
This file is about calls. Calling a script function opens a scope for its parameters and
moves the program counter; its `ret` closes the scope and puts the caller's state back.
Calling a native function stays where it is. When a native function enters a script
function, the call is suspended as an activation: the machine runs on in the same loop, and
the activation says what to do once the frames are as few as they were.
-/

import ScriptEngine.Machine.Native

namespace ScriptEngine

/-- Who waits for a script function that was entered by the host. -/
inductive Waiting where
  /-- The host itself. -/
  | host
  /-- A call instruction whose native function entered it; a constructor call or not. -/
  | call (construct : Bool)
  deriving DecidableEq

/-- A script function that was entered by the host and has not returned: the address to come
back to, how many frames and receivers there were, and who waits. -/
structure Activation where
  pc : Int64
  depth : Nat
  receiverMark : Nat
  waiting : Waiting
  deriving DecidableEq

namespace Machine

/-! ### Script functions -/

/-- Gives a constructor call its new receiver. -/
def pushNewReceiver (function : FunctionId) : Action Unit := do
  let cell ← onHeap do
    let cell ← Heap.allocateObject
    Heap.copyPrototype function ((← get).content cell)
    return cell
  pushReceiver cell

/-- Binds parameters to copies of the arguments, and those beyond them to undefined. -/
def bindParameters : List Text → List CellId → Action Unit
  | [], _ => return
  | name :: names, arguments => do
    let cell ← match arguments with
      | [] => onHeap (Heap.allocateContent .undefined)
      | argument :: _ => onHeap (Heap.copy argument)
    onScopes fun scopes => scopes.bind name cell
    bindParameters names arguments.tail

/-- Moves into a script function; the program counter stops just before its first
instruction. -/
def enter (function : FunctionId) (arguments : List CellId) (construct : Bool) :
    Action Unit := do
  if construct then pushNewReceiver function
  onScopes Scopes.push
  let body := (← get).heap.function function
  bindParameters body.params arguments
  modify fun machine => { machine with current := body.entry - 1 }

/-- Enters a script function for the host, on top of whatever runs. -/
def activate (function : FunctionId) (receiver? : Option CellId) (arguments : List CellId)
    (waiting : Waiting) : Action Activation := do
  let this ← match receiver? with
    | some cell => pure cell
    | none => receiver
  let machine ← get
  let activation : Activation :=
    { pc := machine.current, depth := machine.frames.size,
      receiverMark := machine.receivers.size, waiting }
  pushReceiver this
  pushFrame
  if (← get).overLimit then
    let _ ← popFrame
    modify fun machine =>
      { machine with receivers := machine.receivers.shrink activation.receiverMark }
    raise .frameLimit
  else
    enter function arguments false
    modify fun machine => { machine with current := machine.current + 1 }
    return activation

/-- Takes the result of an activation that has returned, and puts its own state back. -/
def conclude (activation : Activation) : Action CellId := do
  modify fun machine => { machine with current := activation.pc }
  let result ← pop
  if (← get).receivers.size < activation.receiverMark then breakDown .receiversConsumed
  else
    modify fun machine =>
      { machine with receivers := machine.receivers.shrink activation.receiverMark }
    return result.cell

/-! ### Native functions -/

/-- What executing an instruction leaves to do. -/
inductive Flow where
  /-- Nothing: go on behind it. -/
  | done
  /-- Run the script function that was entered; the instruction is finished after it. -/
  | suspended (activation : Activation)

/-- Ends a native call with its result. -/
def finishNative (construct : Bool) (result : CellId) : Action Unit := do
  let _ ← leaveFrame
  pushCell result
  if construct then
    pushReceiver result
    clearConstruct
  setFlags

/-- Lets a script fault out of a native call, which leaves a frame on the way. -/
def leavingFrame {Result : Type} (action : Action Result) : Action Result :=
  tryCatch action fun fault => do
    match fault with
    | .script _ =>
      let _ ← leaveFrame
      throw fault
    | _ => throw fault

/-- Calls a native function from a call instruction. -/
def callNative (native : Native) (arguments : List CellId) (construct : Bool) :
    Action Flow := do
  let this ← receiver
  let flow ← leavingFrame do
    match ← callHost native (some this) arguments with
    | .value result => return Sum.inl result
    | .enter function receiver? arguments =>
      return Sum.inr (← activate function receiver? arguments (.call construct))
  match flow with
  | .inl result =>
    finishNative construct result
    return .done
  | .inr activation => return .suspended activation

/-! ### The two instructions -/

/-- Calls the function below the arguments. -/
def call (count : Nat) : Action Flow := do
  let arguments ← popOnto count []
  let callee := (← pop).cell
  let construct := (← get).flags.construct
  pushFrame
  clearConstruct
  if (← get).overLimit then
    let _ ← popFrame
    raise .frameLimit
  else
    match (← contentOf callee).callable? with
    | none =>
      let _ ← popFrame
      raise .notCallable
    | some function =>
      onHeap (Heap.prepare function)
      match ((← get).heap.function function).native with
      | some native => callNative native arguments construct
      | none =>
        enter function arguments construct
        return .done

/-- The receiver that a constructor call has made: the one pushed first, if it is still there. -/
def constructed (frame : Frame) : Action CellId := do
  match (← get).receivers[frame.receiverMark]? with
  | some cell => return cell
  | none => receiver

/-- Returns from a call with the topmost operand as result. -/
def ret : Action Unit := do
  let result := (← pop).cell
  match (← get).frames.back? with
  | none => malformed .noFrame
  | some frame =>
    if frame.flags.construct then
      let this ← constructed frame
      let _ ← restore
      pushReceiver this
      clearConstruct
    else
      let _ ← restore
    pushCell result
    onScopes Scopes.pop
    setFlags

end Machine

end ScriptEngine
