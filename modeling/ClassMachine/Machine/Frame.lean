/-
Frames: the state of one method being run. The actions on a frame change its stack, its place in
the code and its result; an action that fails leaves the frame as it stands at that point.
-/
import ClassMachine.Machine.Fault
import ClassMachine.Machine.OperandStack

namespace ClassMachine

/-- A method being run. -/
structure Frame where
  classFile : ClassFile
  site : Site
  code : Code
  pc : Nat
  stack : OperandStack
  locals : List Int32
  /-- What the method yields once it is done. -/
  returnValue : Int32
  /-- Whether the caller gets that value on its stack. -/
  returnsValue : Bool
  deriving DecidableEq

namespace Frame

/-- The locals at the start of a method: the arguments, then zeros up to the room the code asks
for. -/
def initialLocals (arguments : List Int32) (maxLocals : Nat) : List Int32 :=
  arguments ++ List.replicate (maxLocals - arguments.length) 0

/-- A method about to start. -/
def enter (classFile : ClassFile) (method : Member) (arguments : List Int32)
    (returnsValue : Bool) : Except Fault Frame := do
  let code ← (method.code classFile.pool).mapError .noCode
  return {
    classFile
    site := classFile.site method
    code
    pc := 0
    stack := .empty
    locals := initialLocals arguments code.maxLocals.toNat
    returnValue := 0
    returnsValue }

/-- Whether the end of the code is reached or passed. -/
def isDone (frame : Frame) : Bool :=
  frame.code.bytes.size ≤ frame.pc

/-- The place the frame has reached. -/
def location (frame : Frame) : Location where
  site := frame.site
  pc := frame.pc
  opcode := frame.code.bytes[frame.pc]?

/-- The frame with one more value on its stack. -/
def receive (frame : Frame) (value : Int32) : Frame :=
  { frame with stack := frame.stack.push value }

/-- Changes a frame, or fails and leaves it as it stands. -/
abbrev Action (α : Type) : Type :=
  EStateM Failure Frame α

namespace Action

/-- Fails for the given cause. -/
def fail {α : Type} (fault : Fault) : Action α :=
  throw (Failure.ofFault fault)

/-- The value of a computation that may fail. -/
def ofExcept {α : Type} : Except Fault α → Action α
  | .ok value => return value
  | .error fault => fail fault

/-- Puts a value on the stack. -/
def push (value : Int32) : Action Unit :=
  modify fun frame => frame.receive value

/-- Takes the top value off the stack. -/
def pop : Action Int32 := do
  let frame ← get
  match frame.stack.pop? with
  | some (value, stack) =>
    set { frame with stack }
    return value
  | none => fail .stackUnderflow

/-- The value of a local. -/
def load (index : Nat) : Action Int32 := do
  let frame ← get
  match frame.locals[index]? with
  | some value => return value
  | none => fail (.noLocal index frame.locals.length)

/-- Moves forward in the code. -/
def advance (length : Nat) : Action Unit :=
  modify fun frame => { frame with pc := frame.pc + length }

/-- Moves by a distance that may be negative. A place at or after the end of the code ends the
method; a place before its start does not exist. -/
def branch (distance : Int16) : Action Unit := do
  let frame ← get
  let target := (frame.pc : Int) + distance.toInt
  if target < 0 then
    fail (.branchOutside target)
  else
    set { frame with pc := target.toNat }

/-- Ends the method with the given result. -/
def leave (value : Int32) : Action Unit :=
  modify fun frame => { frame with returnValue := value, pc := frame.code.bytes.size }

end Action

end Frame

end ClassMachine
