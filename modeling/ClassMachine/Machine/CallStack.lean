/-
The frames of a run: the method being run, the method that called it, and so on to the one that
the run started with. There is always at least one.
-/
import ClassMachine.Machine.Frame

namespace ClassMachine

/-- Frames, the latest call first, and their number. -/
structure CallStack where
  top : Frame
  callers : List Frame
  depth : Nat
  depth_eq : depth = callers.length + 1 := by simp

namespace CallStack

/-- The frames, the latest call first. -/
def frames (stack : CallStack) : List Frame :=
  stack.top :: stack.callers

/-- The frame of the method that a run starts with. -/
def ofEntry (frame : Frame) : CallStack where
  top := frame
  callers := []
  depth := 1

/-- Adds the frame of a call. -/
def push (stack : CallStack) (callee : Frame) : CallStack where
  top := callee
  callers := stack.top :: stack.callers
  depth := stack.depth + 1
  depth_eq := by simp [stack.depth_eq]

/-- Puts another frame in the place of the top one. -/
def setTop (stack : CallStack) (frame : Frame) : CallStack :=
  { stack with top := frame }

/-- The frames below the top one, if there are any. -/
def pop? : CallStack → Option CallStack
  | ⟨_, [], _, _⟩ => none
  | ⟨_, caller :: callers, depth, h⟩ =>
    some { top := caller, callers, depth := depth - 1, depth_eq := by simp [h] }

end CallStack

end ClassMachine
