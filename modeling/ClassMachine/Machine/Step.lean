/-
What one instruction does. It works on the frame of the method being run; a call also yields the
frame of the method called. A call that fails, for whatever reason, changes nothing.
-/
import ClassMachine.ClassTable
import ClassMachine.Machine.Frame
import ClassMachine.Machine.Limits

namespace ClassMachine

/-- The classes that calls can reach and the limits of a run. -/
structure Machine where
  classes : ClassTable
  limits : Limits
  deriving DecidableEq

/-- A method that a call leads to. -/
structure Target where
  ref : MemberRef
  classFile : ClassFile
  method : Member
  descriptor : Descriptor
  deriving DecidableEq

/-- A call that was made: the method by name and its frame. -/
structure Call where
  target : MemberRef
  callee : Frame
  deriving DecidableEq

namespace Machine

open Frame.Action

/-- The method that an index in the pool of the calling class leads to. -/
def resolve (machine : Machine) (caller : ClassFile) (index : UInt16) : Except Fault Target := do
  let ref ← (caller.pool.methodRef index).mapError .unresolved
  match machine.classes.find? ref.className with
  | none => throw (.noClass ref.className)
  | some classFile =>
    match classFile.findMethod? ref.name ref.descriptor with
    | none => throw (.noMethod ref)
    | some method =>
      let descriptor ← (Descriptor.parse ref.descriptor).mapError .badDescriptor
      return { ref, classFile, method, descriptor }

/-- Calls the method that an index leads to, with as many values from the top of the stack as it
has arguments, the last argument on top. -/
def call (machine : Machine) (depth : Nat) (index : UInt16) : Frame.Action Call := do
  let caller ← get
  let target ← ofExcept (machine.resolve caller.classFile index)
  if machine.limits.callDepth ≤ depth then
    fail (.callDepthLimit machine.limits.callDepth)
  else
    match caller.stack.splitTop? target.descriptor.arity with
    | none => fail .stackUnderflow
    | some (arguments, stack) =>
      match Frame.enter target.classFile target.method arguments
          target.descriptor.returnsValue with
      | .error fault =>
        throw ((Failure.ofFault fault).locate (.entry (target.classFile.site target.method)))
      | .ok callee =>
        set { caller with stack, pc := caller.pc + Opcode.invokestatic.length }
        return { target := target.ref, callee }

/-- Replaces the two topmost values by what an operation makes of them, the lower one first. -/
def binary (operation : Int32 → Int32 → Int32) : Frame.Action Unit := do
  let right ← pop
  let left ← pop
  push (operation left right)

/-- Takes the two topmost values and moves by `distance` if they differ, else by `length`. -/
def branchUnlessEqual (distance : Int16) (length : Nat) : Frame.Action Unit := do
  let right ← pop
  let left ← pop
  if left ≠ right then branch distance else advance length

/-- Executes an instruction in the frame at the given depth and yields the call it makes, if any.
For a constant or a field its index stands in. -/
def execute (machine : Machine) (depth : Nat) (instruction : Instruction) :
    Frame.Action (Option Call) :=
  match instruction.opcode, instruction.operand with
  | .iconst1, _ => thenAdvance (push 1)
  | .bipush, .immediate value => thenAdvance (push value)
  | .ldc, .index slot => thenAdvance (push (Int32.ofNat slot.toNat))
  | .getstatic, .index slot => thenAdvance (push (Int32.ofNat slot.toNat))
  | .iload0, _ => thenAdvance (do push (← load 0))
  | .pop, _ => thenAdvance (discard pop)
  | .isub, _ => thenAdvance (binary (· - ·))
  | .imul, _ => thenAdvance (binary (· * ·))
  | .ifIcmpne, .offset distance => withoutCall (branchUnlessEqual distance instruction.length)
  | .goto, .offset distance => withoutCall (branch distance)
  | .ireturn, _ => withoutCall (do leave (← pop))
  | .voidReturn, _ => withoutCall (leave 0)
  | .invokestatic, .index slot => do return some (← machine.call depth slot)
  | opcode, operand => fail (.badOperand opcode.byte operand)
where
  /-- An instruction that is no call. -/
  withoutCall (action : Frame.Action Unit) : Frame.Action (Option Call) := do
    action
    return none
  /-- An instruction after which the next one in the code follows. -/
  thenAdvance (action : Frame.Action Unit) : Frame.Action (Option Call) := do
    action
    advance instruction.length
    return none

end Machine

end ClassMachine
