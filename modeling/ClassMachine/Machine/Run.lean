/-
Runs: the machine works in rounds. In a round either the method on top is done and its caller gets
the result, or one instruction of it is executed, if the limits allow. A run ends when the method
it started with is done or when something fails.
-/
import ClassMachine.Machine.CallStack
import ClassMachine.Machine.Notice
import ClassMachine.Machine.Step

namespace ClassMachine

namespace Machine

/-- A run under way. -/
structure State where
  stack : CallStack
  /-- The number of instructions executed so far. -/
  executed : Nat

/-- The end of a run. -/
structure Halt where
  outcome : Except Failure Int32
  executed : Nat

/-- What a round leads to, and what it tells. -/
inductive Round where
  | next (state : State) (notices : List Notice)
  | halt (halt : Halt) (notices : List Notice)

/-- The start of a run whose first frame is the given one. -/
def State.ofEntry (frame : Frame) : State where
  stack := .ofEntry frame
  executed := 0

/-- Takes away the top frame, which is done, and hands its result to the caller. -/
def State.complete (state : State) : Round :=
  let done := state.stack.top
  let notices := [.returned done.site done.returnValue]
  match state.stack.pop? with
  | none => .halt { outcome := .ok done.returnValue, executed := state.executed } notices
  | some callers =>
    let stack :=
      if done.returnsValue then callers.setTop (callers.top.receive done.returnValue)
      else callers
    .next { state with stack } notices

/-- Ends a run at the place its top frame has reached, unless the failure names a closer one. -/
def State.abort (state : State) (failure : Failure) (executed : Nat) : Round :=
  .halt { outcome := .error (failure.locate state.stack.top.location), executed } []

/-- The report of an instruction that was executed in the top frame, which is now `after`. -/
def State.event (state : State) (instruction : Instruction) (after : Frame) : Event where
  className := state.stack.top.site.className
  method := state.stack.top.site.method
  depth := state.stack.depth
  pc := state.stack.top.pc
  instruction
  stack := after.stack

/-- Executes the instruction that the top frame has reached. -/
def perform (machine : Machine) (state : State) (instruction : Instruction) : Round :=
  match machine.execute state.stack.depth instruction state.stack.top with
  | .error failure _ => state.abort failure (state.executed + 1)
  | .ok none after =>
    .next { stack := state.stack.setTop after, executed := state.executed + 1 }
      [.executed (state.event instruction after)]
  | .ok (some call) after =>
    .next { stack := (state.stack.setTop after).push call.callee, executed := state.executed + 1 }
      [.called call.target call.callee.locals, .executed (state.event instruction after)]

/-- One round, at a time `elapsed` nanoseconds after the start. -/
def round (machine : Machine) (elapsed : Nat) (state : State) : Round :=
  let frame := state.stack.top
  if frame.isDone then
    state.complete
  else
    match machine.limits.check state.executed elapsed with
    | .error fault => state.abort (.ofFault fault) state.executed
    | .ok () =>
      match Instruction.decode frame.code.bytes frame.pc with
      | .error error => state.abort (.ofFault (.noInstruction error)) state.executed
      | .ok instruction => machine.perform state instruction

/-- What a limited number of rounds leads to, and what an observer made of it. -/
inductive Progress (σ : Type) where
  | finished (halt : Halt) (seen : σ)
  | paused (state : State) (seen : σ)

/-- At most `fuel` rounds. The clock gives the time since the start, in nanoseconds, when so many
instructions are executed. -/
def run {σ : Type} (machine : Machine) (observer : Observer σ) (clock : Nat → Nat) :
    (fuel : Nat) → State → σ → Progress σ
  | 0, state, seen => .paused state seen
  | fuel + 1, state, seen =>
    match machine.round (clock state.executed) state with
    | .next state notices =>
      run machine observer clock fuel state (observer.notifyAll notices seen)
    | .halt halt notices => .finished halt (observer.notifyAll notices seen)

end Machine

end ClassMachine
