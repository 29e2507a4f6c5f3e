/-
The limits of a run: how many instructions it may execute, how many frames it may have at a time
and how long it may take.
-/
import ClassMachine.Machine.Fault

namespace ClassMachine

/-- The limits of a run. -/
structure Limits where
  /-- The number of instructions, those of called methods included. -/
  instructions : Option Nat := none
  /-- The number of frames. -/
  callDepth : Nat := 1024
  /-- The time in milliseconds. -/
  deadline : Option Nat := none
  deriving DecidableEq

namespace Limits

/-- Whether the number of instructions allows one more after `executed` ones. -/
def checkInstructions (limits : Limits) (executed : Nat) : Except Fault Unit :=
  match limits.instructions with
  | some limit => if limit ≤ executed then .error (.instructionLimit limit) else .ok ()
  | none => .ok ()

/-- Whether the time allows one more instruction after `elapsed` nanoseconds. -/
def checkTime (limits : Limits) (elapsed : Nat) : Except Fault Unit :=
  match limits.deadline with
  | some deadline => if deadline * 1000000 < elapsed then .error .deadline else .ok ()
  | none => .ok ()

/-- Whether one more instruction may be executed. The number of instructions is looked at first. -/
def check (limits : Limits) (executed elapsed : Nat) : Except Fault Unit := do
  limits.checkInstructions executed
  limits.checkTime elapsed

end Limits

end ClassMachine
