/-
This file runs programs. One loop executes every instruction, whether it belongs to the
program, to a function it calls or to a function that the host has entered: the functions
entered by the host are a list of activations beside the machine, innermost first. The loop
takes one move at a time, and an observer may look at the machine before each instruction.
-/

import ScriptEngine.Machine.Execute

namespace ScriptEngine

namespace Machine

/-- The next move of a run. -/
inductive Move where
  /-- The run is over. -/
  | finish
  /-- The run is over, but a function that the host entered has not returned. -/
  | leave
  /-- A function that the host entered has returned. -/
  | resume (activation : Activation) (pending : List Activation)
  /-- The instruction at the program counter is executed. -/
  | execute

/-- The next move of a machine. -/
def nextMove (machine : Machine) : List Activation → Move
  | [] => if machine.current = machine.stop then .finish else .execute
  | activation :: pending =>
    if activation.depth < machine.frames.size then
      if machine.current = machine.stop then .leave else .execute
    else .resume activation pending

/-- What a move leads to: more moves, or the end with the result that the host waits for. -/
inductive Progress where
  | running (pending : List Activation)
  | finished (result : Option CellId)

/-- Takes a script fault out through the activations it passes. Each call instruction on the way
leaves a frame and adds its place. -/
def unwind (fault : ScriptFault) : List Activation → Action Progress
  | [] => throw (.script fault)
  | activation :: pending => do
    match activation.waiting with
    | .host => throw (.script fault)
    | .call _ =>
      let _ ← leaveFrame
      let pc := (← get).current
      unwind (fault.passing ⟨pc, .call⟩) pending

/-- Goes on behind the instruction, unless the run has reached its end. -/
def stepOver : Action Unit :=
  modify fun machine =>
    if machine.current = machine.stop then machine
    else { machine with current := machine.current + 1 }

/-- Executes the instruction at the program counter. -/
def executeNext (pending : List Activation) : Action Progress := do
  let machine ← get
  match machine.instruction? with
  | none => malformed (.counterRange machine.code.size)
  | some instruction =>
    let flow ← tryCatch (Sum.inl <$> execute instruction) fun fault => do
      match fault with
      | .script fault => return Sum.inr fault
      | _ => throw fault
    match flow with
    | .inl .done =>
      stepOver
      return .running pending
    | .inl (.suspended activation) => return .running (activation :: pending)
    | .inr fault =>
      let pc := (← get).current
      unwind (fault.passing ⟨pc, instruction.opcode⟩) pending

/-- Finishes an activation that has returned, and with it the instruction that waits for it. -/
def resume (activation : Activation) (pending : List Activation) : Action Progress := do
  let result ← conclude activation
  match activation.waiting with
  | .host => return .finished (some result)
  | .call construct =>
    finishNative construct result
    stepOver
    return .running pending

/-- Takes one move. -/
def advance (pending : List Activation) : Action Progress := do
  match (← get).nextMove pending with
  | .finish => return .finished none
  | .leave => unwind { cause := .leave } pending
  | .resume activation pending => resume activation pending
  | .execute => executeNext pending

/-! ### The loop -/

/-- How a run has ended. -/
inductive Outcome where
  | finished (result : Option CellId)
  | failed (fault : Fault)
  | outOfFuel
  deriving DecidableEq

/-- Whether the next move executes an instruction that exists. -/
def aboutToExecute (machine : Machine) (pending : List Activation) : Bool :=
  match machine.nextMove pending with
  | .execute => machine.instruction?.isSome
  | _ => false

/-- Moves until the run ends, showing the machine to an observer before each instruction. -/
def loop {View : Type} (observe : Machine → View → View) :
    (fuel : Nat) → List Activation → View → Machine → Outcome × View × Machine
  | 0, _, view, machine => (.outOfFuel, view, machine)
  | fuel + 1, pending, view, machine =>
    let view := if machine.aboutToExecute pending then observe machine view else view
    match advance pending machine with
    | .ok (.running pending) machine => loop observe fuel pending view machine
    | .ok (.finished result) machine => (.finished result, view, machine)
    | .error fault machine => (.failed fault, view, machine)

/-- Runs from the program counter to the end address. A run that reaches the end inside a
function entered by the host is over like any other. -/
def run {View : Type} (observe : Machine → View → View) (fuel : Nat) (view : View)
    (machine : Machine) : Outcome × View × Machine :=
  match loop observe fuel [] view machine with
  | (.failed (.script fault), view, machine) =>
    if fault.cause = .leave then (.finished none, view, { machine with current := machine.stop })
    else (.failed (.script fault), view, machine)
  | ended => ended

/-- Starts a call of a cell from the host: the call may be over at once, or a script function has
been entered. -/
def startInvoke (callee : CellId) (receiver? : Option CellId) (arguments : List CellId) :
    Action Progress := do
  let function ← prepared callee
  let call ← match ((← get).heap.function function).native with
    | some native => callHost native receiver? arguments
    | none => pure (.enter function receiver? arguments)
  match call with
  | .value cell => return .finished (some cell)
  | .enter function receiver? arguments =>
    return .running [← activate function receiver? arguments .host]

/-- Calls a cell from the host and runs until it has returned. -/
def invoke {View : Type} (observe : Machine → View → View) (fuel : Nat) (callee : CellId)
    (receiver? : Option CellId) (arguments : List CellId) (view : View) (machine : Machine) :
    Outcome × View × Machine :=
  match startInvoke callee receiver? arguments machine with
  | .ok (.running pending) machine => loop observe fuel pending view machine
  | .ok (.finished result) machine => (.finished result, view, machine)
  | .error fault machine => (.failed fault, view, machine)

end Machine

end ScriptEngine
