/-
Arithmetic on the operand stack. An expression of constants, the first argument, subtractions and multiplications is
written in the code with its operands first, the left one before the right one, and the operation behind them. Main
statement (`run_computes_expression`): a method whose code is such an expression and a return yields the value of the
expression over the integers, brought into 32 bits. What is generalised for the induction (`rounds_of_expression`) is
the place of the expression in the code, the frame around it and the values below it on the stack.
-/
import ClassMachine.Proofs.Machine.Recursion

namespace ClassMachine

/-! ## Expressions -/

/-- An operand of one instruction. -/
inductive Leaf where
  | one
  | small (value : Int8)
  /-- A constant of the pool, for which its index stands in. -/
  | constant (slot : UInt8)
  /-- A field of a class, for which its index stands in. -/
  | field (slot : UInt16)
  /-- The first argument. -/
  | argument
  deriving DecidableEq

/-- An operation on two values. -/
inductive Operator where
  | sub
  | mul
  deriving DecidableEq

inductive Expression where
  | single (leaf : Leaf)
  | binary (operator : Operator) (left right : Expression)
  deriving DecidableEq

namespace Leaf

/-- The value over the integers where the first argument is `x`. -/
def value (x : Int) : Leaf → Int
  | one => 1
  | small value => value.toInt
  | constant slot => slot.toNat
  | field slot => slot.toNat
  | argument => x

def bytes : Leaf → List UInt8
  | one => [0x04]
  | small value => [0x10, value.toUInt8]
  | constant slot => [0x12, slot]
  | field slot => 0xb2 :: Binary.bytes16 slot
  | argument => [0x1a]

/-- The instruction that puts the operand on the stack. -/
def instruction : Leaf → Instruction
  | one => ⟨.iconst1, .absent⟩
  | small value => ⟨.bipush, .immediate value.toInt32⟩
  | constant slot => ⟨.ldc, .index slot.toUInt16⟩
  | field slot => ⟨.getstatic, .index slot⟩
  | argument => ⟨.iload0, .absent⟩

@[simp] theorem encode?_instruction (leaf : Leaf) : leaf.instruction.encode? = some leaf.bytes := by
  cases leaf <;> simp [instruction, bytes, Instruction.encode?, Opcode.form, Opcode.byte, OperandForm.write?]

end Leaf

namespace Operator

/-- The operation on the integers, the left operand first. -/
def apply : Operator → Int → Int → Int
  | sub, left, right => left - right
  | mul, left, right => left * right

def byte : Operator → UInt8
  | sub => 0x64
  | mul => 0x68

def instruction : Operator → Instruction
  | sub => ⟨.isub, .absent⟩
  | mul => ⟨.imul, .absent⟩

@[simp] theorem encode?_instruction (operator : Operator) : operator.instruction.encode? = some [operator.byte] := by
  cases operator <;> rfl

end Operator

namespace Expression

/-- The value over the integers where the first argument is `x`. -/
def value (x : Int) : Expression → Int
  | single leaf => leaf.value x
  | binary operator left right => operator.apply (left.value x) (right.value x)

/-- The expression as code. -/
def bytes : Expression → List UInt8
  | single leaf => leaf.bytes
  | binary operator left right => left.bytes ++ (right.bytes ++ [operator.byte])

/-- The number of operands and operations. -/
def nodes : Expression → Nat
  | single _ => 1
  | binary _ left right => left.nodes + right.nodes + 1

end Expression

/-- The frame at a place in its code, with the given stack. -/
def Frame.moved (frame : Frame) (stack : OperandStack) (pc : Nat) : Frame :=
  { frame with stack, pc }

namespace Machine

open ClassMachine.Frame ClassMachine.Frame.Action

/-! ## One operand, one operation -/

theorem thenAdvance_of_ok {instruction : Instruction} {action : Action Unit} {frame : Frame}
    {before after : OperandStack} {pc : Nat} (h : action (frame.moved before pc) = .ok () (frame.moved after pc)) :
    execute.thenAdvance instruction action (frame.moved before pc) =
      .ok none (frame.moved after (pc + instruction.length)) :=
  bind_of_ok h

/-- An operand goes on top of the stack, brought into 32 bits. -/
theorem execute_leaf (machine : Machine) (depth : Nat) (leaf : Leaf) {frame : Frame} {x : Int32}
    (hlocals : frame.locals[0]? = some x) (stack : OperandStack) (pc : Nat) :
    machine.execute depth leaf.instruction (frame.moved stack pc) =
      .ok none (frame.moved (stack.push (.ofInt (leaf.value x.toInt))) (pc + leaf.instruction.length)) := by
  cases leaf with
  | one => exact thenAdvance_of_ok rfl
  | small value =>
    rw [Leaf.value, Int32.ofInt_int8ToInt]
    exact thenAdvance_of_ok rfl
  | constant slot => exact thenAdvance_of_ok rfl
  | field slot => exact thenAdvance_of_ok rfl
  | argument =>
    have hload : load 0 (frame.moved stack pc) = .ok x (frame.moved stack pc) := by
      rw [load_eq, show (frame.moved stack pc).locals[0]? = some x from hlocals]
    have hpush : (load 0 >>= push) (frame.moved stack pc) = .ok () (frame.moved (stack.push x) pc) :=
      bind_of_ok hload
    rw [Leaf.value, Int32.ofInt_toInt]
    exact thenAdvance_of_ok hpush

/-- An operation on two numbers brought into 32 bits is that on the numbers themselves, brought into 32 bits. -/
theorem execute_operator (machine : Machine) (depth : Nat) (operator : Operator) (frame : Frame)
    (stack : OperandStack) (left right : Int) (pc : Nat) :
    machine.execute depth operator.instruction (frame.moved ((stack.push (.ofInt left)).push (.ofInt right)) pc) =
      .ok none (frame.moved (stack.push (.ofInt (operator.apply left right))) (pc + operator.instruction.length)) := by
  cases operator with
  | sub =>
    rw [Operator.apply, Int32.ofInt_sub]
    exact thenAdvance_of_ok rfl
  | mul =>
    rw [Operator.apply, Int32.ofInt_mul]
    exact thenAdvance_of_ok rfl

/-! ## Whole expressions -/

variable {machine : Machine}

/-- The round in which an instruction is executed that makes no call. -/
theorem round_of_execute {elapsed : Nat} {state : State} {instruction : Instruction} {after : Frame}
    (hcheck : machine.limits.check state.executed elapsed = .ok ())
    (hdecode : Instruction.decode state.stack.top.code.bytes state.stack.top.pc = .ok instruction)
    (hexecute : machine.execute state.stack.depth instruction state.stack.top = .ok none after) :
    machine.round elapsed state =
      .next { stack := state.stack.setTop after, executed := state.executed + 1 }
        [.executed (state.event instruction after)] := by
  rw [round_of_decode hcheck hdecode]
  unfold perform
  rw [hexecute]

/-- An instruction that stands in the code and makes no call takes one round. -/
theorem rounds_of_execute (clock : Nat → Nat)
    (hlimits : ∀ executed elapsed, machine.limits.check executed elapsed = .ok ())
    (stack : CallStack) (executed : Nat) {instruction : Instruction} {bytes : List UInt8} {frame after : Frame}
    (hencode : instruction.encode? = some bytes) (hstand : StandAt bytes frame.code.bytes frame.pc)
    (hexecute : machine.execute stack.depth instruction frame = .ok none after) :
    ∃ notices, Rounds machine clock 1 { stack := stack.setTop frame, executed } notices
      { stack := stack.setTop after, executed := executed + 1 } := by
  have hdecode := Instruction.decode_eq_ok_iff.2 ⟨bytes, hencode, hstand⟩
  exact ⟨_, Rounds.one (round_of_execute (hlimits ..) hdecode hexecute)⟩

/-- The rounds of an expression that stands anywhere in the code, in a frame with any values on its stack: they put
the value of the expression on top of these. -/
theorem rounds_of_expression (clock : Nat → Nat)
    (hlimits : ∀ executed elapsed, machine.limits.check executed elapsed = .ok ())
    (stack : CallStack) {frame : Frame} {x : Int32} (hlocals : frame.locals[0]? = some x) (expression : Expression)
    (values : OperandStack) {pc : Nat} (hstand : StandAt expression.bytes frame.code.bytes pc) (executed : Nat) :
    ∃ notices, Rounds machine clock expression.nodes
      { stack := stack.setTop (frame.moved values pc), executed } notices
      { stack := stack.setTop
          (frame.moved (values.push (.ofInt (expression.value x.toInt))) (pc + expression.bytes.length))
        executed := executed + expression.nodes } := by
  induction expression generalizing values pc executed with
  | single leaf =>
    have hexecute := execute_leaf machine stack.depth leaf hlocals values pc
    rw [← Instruction.length_of_encode? leaf.encode?_instruction] at hexecute
    exact rounds_of_execute clock hlimits stack executed leaf.encode?_instruction hstand hexecute
  | binary operator left right ihleft ihright =>
    obtain ⟨hleft, hrest⟩ := standAt_append_iff.1 hstand
    obtain ⟨hright, hoperator⟩ := standAt_append_iff.1 hrest
    have hexecute := execute_operator machine stack.depth operator frame values (left.value x.toInt)
      (right.value x.toInt) (pc + left.bytes.length + right.bytes.length)
    rw [← Instruction.length_of_encode? operator.encode?_instruction] at hexecute
    -- the left operand stays below the right one until the operation takes both
    obtain ⟨told, hfirst⟩ := ihleft values hleft executed
    obtain ⟨more, hsecond⟩ := ihright (values.push (.ofInt (left.value x.toInt))) hright (executed + left.nodes)
    obtain ⟨last, hthird⟩ := rounds_of_execute clock hlimits stack (executed + left.nodes + right.nodes)
      operator.encode?_instruction hoperator hexecute
    have hrounds := (hfirst.trans hsecond).trans hthird
    simp only [Nat.add_assoc] at hrounds
    simp only [Expression.nodes, Expression.bytes, Expression.value, List.length_append, Nat.add_assoc]
    exact ⟨_, hrounds⟩

/-- A value on top of the stack with a return behind it ends a run in two rounds. -/
theorem halts_of_return (clock : Nat → Nat)
    (hlimits : ∀ executed elapsed, machine.limits.check executed elapsed = .ok ())
    (frame : Frame) (values : OperandStack) (value : Int32) {pc : Nat} (hstand : StandAt [0xac] frame.code.bytes pc)
    (executed : Nat) :
    ∃ notices, Halts machine clock 2
      { stack := .ofEntry (frame.moved (values.push value) pc), executed } notices
      { outcome := .ok value, executed := executed + 1 } := by
  let done : Frame := { frame with stack := values, returnValue := value, pc := frame.code.bytes.size }
  have hexecute : machine.execute 1 ⟨.ireturn, .absent⟩ (frame.moved (values.push value) pc) = .ok none done :=
    execute_ireturn ..
  obtain ⟨told, hrounds⟩ := rounds_of_execute clock hlimits (.ofEntry frame) executed
    (show Instruction.encode? ⟨.ireturn, .absent⟩ = some [0xac] from rfl) hstand hexecute
  have hdone : (CallStack.ofEntry done).top.isDone = true := decide_eq_true (Nat.le_refl _)
  have hpop : (CallStack.ofEntry done).pop? = none := rfl
  exact ⟨_, hrounds.halts (.last (round_of_entry_done machine (clock (executed + 1)) (executed + 1) hdone hpop))⟩

/-- Arithmetic is that of the integers, brought into 32 bits. For every expression, every argument and all classes: a
method whose code is the expression and a return, run without a limit on instructions or time, comes to its end one
round after its last instruction. It has executed one instruction for each operand and each operation and the return,
and it yields the value of the expression over the integers modulo 2³², as a signed number. -/
theorem run_computes_expression {σ : Type} (observer : Observer σ) (clock : Nat → Nat) (classes : ClassTable)
    (callDepth : Nat) (expression : Expression) (x : Int32) {classFile : ClassFile} {method : Member} {code : Code}
    (seen : σ) (hcode : method.code classFile.pool = .ok code)
    (hbytes : code.bytes.toList = expression.bytes ++ [0xac]) :
    ∃ (value : Int32) (final : σ), value.toInt = (expression.value x.toInt).bmod Int32.size ∧
      (Engine.bounded observer clock (expression.nodes + 2)).invoke { classes, limits := { callDepth } } classFile
        method [x] seen = some ({ outcome := .ok value, executed := expression.nodes + 1 }, final) := by
  let machine : Machine := { classes, limits := { callDepth } }
  have hlimits : ∀ executed elapsed, machine.limits.check executed elapsed = .ok () := fun _ _ => rfl
  obtain ⟨frame, henter⟩ : ∃ frame, enter classFile method [x] true = .ok frame := by
    unfold enter
    rw [hcode]
    exact ⟨_, rfl⟩
  obtain ⟨_, hcode', hframe⟩ := enter_eq_ok henter
  cases hcode.symm.trans hcode'
  have hlocals : frame.locals[0]? = some x := by
    rw [hframe]
    rfl
  have hentry : frame = frame.moved .empty 0 := by
    rw [hframe]
    rfl
  have hstand : StandAt (expression.bytes ++ [0xac]) frame.code.bytes 0 := by
    rw [hframe, ← hbytes]
    exact List.prefix_refl _
  obtain ⟨hexpression, hreturn⟩ := standAt_append_iff.1 hstand
  obtain ⟨told, hrounds⟩ := rounds_of_expression clock hlimits (.ofEntry frame) hlocals expression .empty hexpression 0
  obtain ⟨last, hlast⟩ := halts_of_return clock hlimits frame .empty (.ofInt (expression.value x.toInt)) hreturn
    (0 + expression.nodes)
  have hhalts := hrounds.halts hlast
  rw [Nat.zero_add, ← hentry] at hhalts
  have hinvoke := invoke_of_halts observer seen henter hhalts (Nat.le_refl _)
  exact ⟨_, _, Int32.toInt_ofInt, hinvoke⟩

/-- A method that yields the square of its argument less -3. -/
def squaringMethod : Member :=
  ⟨8, 3, 4, [⟨8, [0, 2, 0, 1, 0, 0, 0, 7, 0x1a, 0x1a, 0x68, 0x10, 0xfd, 0x64, 0xac, 0, 0, 0, 0]⟩]⟩

/-- Class `A` with that method. -/
def squaringClass : ClassFile :=
  { callingClass with methods := [squaringMethod] }

/-- For 65537 the square exceeds 32 bits, so that only 131073 is left of it before 3 is added. -/
theorem run_computes_expression_squaringMethod :
    let expression : Expression :=
      .binary .sub (.binary .mul (.single .argument) (.single .argument)) (.single (.small (-3)))
    let code : Code := ⟨2, 1, #[0x1a, 0x1a, 0x68, 0x10, 0xfd, 0x64, 0xac], [], []⟩
    squaringMethod ∈ squaringClass.methods ∧ squaringMethod.code squaringClass.pool = .ok code ∧
    code.bytes.toList = expression.bytes ++ [0xac] ∧ expression.value 65537 = 4295098372 ∧
    (Engine.bounded .silent (fun _ => 0) 7).invoke { classes := ⟨[("A", squaringClass)]⟩, limits := {} } squaringClass
      squaringMethod [65537] () = some ({ outcome := .ok 131076, executed := 6 }, ()) := by
  intro expression code
  have hmethod : squaringMethod ∈ squaringClass.methods := by decide
  have hcode : squaringMethod.code squaringClass.pool = .ok code := rfl
  have hbytes : code.bytes.toList = expression.bytes ++ [0xac] := rfl
  obtain ⟨value, ⟨⟩, hvalue, hinvoke⟩ := run_computes_expression .silent (fun _ => 0) ⟨[("A", squaringClass)]⟩ 1024
    expression 65537 () hcode hbytes
  have hsame : value = 131076 := Int32.toInt_inj.1 hvalue
  exact ⟨hmethod, hcode, hbytes, rfl, hsame ▸ hinvoke⟩

end Machine

end ClassMachine
