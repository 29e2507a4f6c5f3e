/-
What an instruction leaves alone. An activation keeps its class, its names, its code, its locals
and whether its caller gets a value; instructions change its place, its stack and its result. What
an instruction can make of a frame is said once, in `Moves`. Only `invokestatic` makes calls, and what
a call does is said in `call_eq`; `Dispatch` is a call that can be made.
-/
import ClassMachine.Machine.Step

namespace ClassMachine

namespace Frame

/-- Two states of one activation. -/
structure SameActivation (before after : Frame) : Prop where
  classFile : after.classFile = before.classFile
  site : after.site = before.site
  code : after.code = before.code
  locals : after.locals = before.locals
  returnsValue : after.returnsValue = before.returnsValue

theorem SameActivation.refl (frame : Frame) : SameActivation frame frame :=
  ⟨rfl, rfl, rfl, rfl, rfl⟩

theorem SameActivation.trans {first second third : Frame} (h : SameActivation first second)
    (h' : SameActivation second third) : SameActivation first third :=
  ⟨h'.classFile.trans h.classFile, h'.site.trans h.site, h'.code.trans h.code, h'.locals.trans h.locals,
    h'.returnsValue.trans h.returnsValue⟩

/-- A method that can be entered has code, and starts at the front of it with an empty stack. -/
theorem enter_eq_ok {classFile : ClassFile} {method : Member} {arguments : List Int32} {returnsValue : Bool}
    {frame : Frame} (h : enter classFile method arguments returnsValue = .ok frame) :
    ∃ code, method.code classFile.pool = .ok code ∧
      frame = { classFile, site := classFile.site method, code, pc := 0, stack := .empty,
                locals := initialLocals arguments code.maxLocals.toNat, returnValue := 0, returnsValue } := by
  unfold enter at h
  rcases hcode : method.code classFile.pool with error | code
  · rw [hcode] at h; cases h
  · rw [hcode] at h; cases h; exact ⟨code, rfl, rfl⟩

/-- A method that is not done stands at a byte of its code. -/
theorem lt_size_of_not_isDone {frame : Frame} (h : frame.isDone = false) : frame.pc < frame.code.bytes.size := by
  unfold isDone at h
  simpa using h

namespace Action

/-! ## Actions in sequence -/

theorem bind_of_ok {α β : Type} {action : Action α} {next : α → Action β} {frame middle : Frame} {a : α}
    (h : action frame = .ok a middle) : (action >>= next) frame = next a middle := by
  show EStateM.bind action next frame = _
  unfold EStateM.bind
  rw [h]

theorem bind_of_error {α β : Type} {action : Action α} {next : α → Action β} {frame middle : Frame}
    {failure : Failure} (h : action frame = .error failure middle) :
    (action >>= next) frame = .error failure middle := by
  show EStateM.bind action next frame = _
  unfold EStateM.bind
  rw [h]

theorem bind_eq_ok_iff {α β : Type} {action : Action α} {next : α → Action β} {frame after : Frame} {b : β} :
    (action >>= next) frame = .ok b after ↔
      ∃ a middle, action frame = .ok a middle ∧ next a middle = .ok b after := by
  constructor
  · intro h
    rcases ha : action frame with ⟨a, middle⟩ | ⟨failure, middle⟩
    · rw [bind_of_ok ha] at h
      exact ⟨a, middle, rfl, h⟩
    · rw [bind_of_error ha] at h
      cases h
  · rintro ⟨a, middle, ha, h⟩
    rw [bind_of_ok ha]
    exact h

theorem get_bind {β : Type} (next : Frame → Action β) (frame : Frame) :
    (get >>= next) frame = next frame frame := rfl

theorem pop_eq (frame : Frame) :
    pop frame = match frame.stack.pop? with
      | some (value, stack) => .ok value { frame with stack }
      | none => .error (.ofFault .stackUnderflow) frame := by
  unfold pop
  rw [get_bind]
  rcases frame.stack.pop? with _ | ⟨value, stack⟩ <;> rfl

theorem load_eq (index : Nat) (frame : Frame) :
    load index frame = match frame.locals[index]? with
      | some value => .ok value frame
      | none => .error (.ofFault (.noLocal index frame.locals.length)) frame := by
  unfold load
  rw [get_bind]
  rcases frame.locals[index]? with _ | value <;> rfl

theorem branch_eq (distance : Int16) (frame : Frame) :
    branch distance frame =
      if (frame.pc : Int) + distance.toInt < 0 then
        .error (.ofFault (.branchOutside (frame.pc + distance.toInt))) frame
      else
        .ok () { frame with pc := ((frame.pc : Int) + distance.toInt).toNat } := by
  unfold branch
  rw [get_bind]
  by_cases h : (frame.pc : Int) + distance.toInt < 0
  · simp only [h, if_true]; rfl
  · simp only [h, if_false]; rfl

/-- An action that changes nothing but the stack. -/
def StackOnly {α : Type} (action : Action α) : Prop :=
  ∀ frame a after, action frame = .ok a after → ∃ stack, after = { frame with stack }

theorem StackOnly.bind {α β : Type} {action : Action α} {next : α → Action β} (h : StackOnly action)
    (h' : ∀ a, StackOnly (next a)) : StackOnly (action >>= next) := by
  intro frame b after hb
  obtain ⟨a, middle, ha, hb⟩ := bind_eq_ok_iff.1 hb
  obtain ⟨_, rfl⟩ := h frame a middle ha
  obtain ⟨stack, rfl⟩ := h' a _ b after hb
  exact ⟨stack, rfl⟩

theorem stackOnly_pure {α : Type} (a : α) : StackOnly (pure a) := by
  intro frame b after h
  cases h; exact ⟨frame.stack, rfl⟩

theorem stackOnly_push (value : Int32) : StackOnly (push value) := by
  intro frame a after h
  cases h; exact ⟨_, rfl⟩

theorem stackOnly_pop : StackOnly pop := by
  intro frame value after h
  rw [pop_eq] at h
  split at h
  · cases h; exact ⟨_, rfl⟩
  · cases h

theorem stackOnly_load (index : Nat) : StackOnly (load index) := by
  intro frame value after h
  rw [load_eq] at h
  split at h
  · cases h; exact ⟨frame.stack, rfl⟩
  · cases h

end Action

end Frame

/-- The index of the pool through which an instruction calls, if it is a call. -/
def Instruction.callIndex? : Instruction → Option UInt16
  | ⟨.invokestatic, .index slot⟩ => some slot
  | _ => none

theorem Instruction.eq_of_callIndex? {instruction : Instruction} {index : UInt16}
    (h : instruction.callIndex? = some index) : instruction = ⟨.invokestatic, .index index⟩ := by
  unfold Instruction.callIndex? at h
  split at h
  · cases h; rfl
  · cases h

/-- Whether the next instruction in the code can follow. -/
def Opcode.goesOn : Opcode → Bool
  | goto | ireturn | voidReturn => false
  | _ => true

namespace Machine

open ClassMachine.Frame ClassMachine.Frame.Action

/-! ## Instructions that are no calls -/

theorem stackOnly_binary (operation : Int32 → Int32 → Int32) : StackOnly (binary operation) :=
  stackOnly_pop.bind fun _ => stackOnly_pop.bind fun _ => stackOnly_push _

/-- What an instruction that is no call can make of a frame. -/
inductive Moves (instruction : Instruction) (frame : Frame) : Frame → Prop
  /-- The next instruction in the code follows. -/
  | onward (stack : OperandStack) (hopcode : instruction.opcode.goesOn = true) :
      Moves instruction frame { frame with stack, pc := frame.pc + instruction.length }
  | jump (stack : OperandStack) {distance : Int16} (hopcode : instruction.opcode.form = .offset)
      (hoperand : instruction.operand = .offset distance) (htarget : 0 ≤ (frame.pc : Int) + distance.toInt) :
      Moves instruction frame { frame with stack, pc := ((frame.pc : Int) + distance.toInt).toNat }
  /-- The method is done with a value from its stack. -/
  | ireturn {value : Int32} {stack : OperandStack} (hopcode : instruction.opcode = .ireturn)
      (hpop : frame.stack.pop? = some (value, stack)) :
      Moves instruction frame { frame with stack, returnValue := value, pc := frame.code.bytes.size }
  /-- The method is done without a value. -/
  | voidReturn (hopcode : instruction.opcode = .voidReturn) :
      Moves instruction frame { frame with returnValue := 0, pc := frame.code.bytes.size }

theorem Moves.sameActivation {instruction : Instruction} {frame after : Frame} (h : Moves instruction frame after) :
    SameActivation frame after := by
  cases h <;> exact ⟨rfl, rfl, rfl, rfl, rfl⟩

theorem moves_thenAdvance {instruction : Instruction} {action : Action Unit}
    (hopcode : instruction.opcode.goesOn = true) (h : StackOnly action) {frame after : Frame} {call : Option Call}
    (hok : execute.thenAdvance instruction action frame = .ok call after) :
    call = none ∧ Moves instruction frame after := by
  obtain ⟨_, middle, ha, hok⟩ := bind_eq_ok_iff.1 hok
  obtain ⟨stack, rfl⟩ := h frame _ _ ha
  cases hok
  exact ⟨rfl, .onward stack hopcode⟩

theorem moves_branch {instruction : Instruction} {distance : Int16} {frame after : Frame} (stack : OperandStack)
    (hopcode : instruction.opcode.form = .offset) (hoperand : instruction.operand = .offset distance)
    (hok : branch distance { frame with stack } = .ok () after) : Moves instruction frame after := by
  rw [branch_eq] at hok
  split at hok
  · cases hok
  · rename_i htarget
    cases hok
    exact .jump stack hopcode hoperand (Int.not_lt.1 htarget)

theorem moves_branchUnlessEqual {instruction : Instruction} {distance : Int16} {frame after : Frame}
    (hopcode : instruction.opcode = .ifIcmpne) (hoperand : instruction.operand = .offset distance)
    (hok : branchUnlessEqual distance instruction.length frame = .ok () after) : Moves instruction frame after := by
  obtain ⟨right, middle, hright, hok⟩ := bind_eq_ok_iff.1 hok
  obtain ⟨_, rfl⟩ := stackOnly_pop frame right middle hright
  obtain ⟨left, middle, hleft, hok⟩ := bind_eq_ok_iff.1 hok
  obtain ⟨stack, rfl⟩ := stackOnly_pop _ left middle hleft
  split at hok
  · exact moves_branch stack (by rw [hopcode]; rfl) hoperand hok
  · cases hok
    exact .onward stack (by rw [hopcode]; rfl)

theorem execute_ireturn (machine : Machine) (depth : Nat) (operand : Operand) (frame : Frame) :
    machine.execute depth ⟨.ireturn, operand⟩ frame =
      match frame.stack.pop? with
      | some (value, stack) =>
        .ok none { frame with stack, returnValue := value, pc := frame.code.bytes.size }
      | none => .error (.ofFault .stackUnderflow) frame := by
  have hpop := pop_eq frame
  show (execute.withoutCall (pop >>= leave)) frame = _
  unfold execute.withoutCall
  rcases hvalue : frame.stack.pop? with _ | ⟨value, stack⟩
  · rw [hvalue] at hpop
    exact bind_of_error (bind_of_error hpop)
  · rw [hvalue] at hpop
    exact bind_of_ok (bind_of_ok hpop)

/-- An instruction that is no call leads onward, to the place of a jump or to the end of the code. -/
theorem execute_moves (machine : Machine) (depth : Nat) {instruction : Instruction}
    (hcall : instruction.callIndex? = none) {frame after : Frame} {call : Option Call}
    (h : machine.execute depth instruction frame = .ok call after) : call = none ∧ Moves instruction frame after := by
  obtain ⟨opcode, operand⟩ := instruction
  cases opcode with
  | ireturn =>
    rw [execute_ireturn] at h
    split at h
    · rename_i hpop
      cases h
      exact ⟨rfl, .ireturn rfl hpop⟩
    · cases h
  | voidReturn =>
    cases h
    exact ⟨rfl, .voidReturn rfl⟩
  | iconst1 => exact moves_thenAdvance rfl (stackOnly_push _) h
  | iload0 => exact moves_thenAdvance rfl ((stackOnly_load 0).bind fun _ => stackOnly_push _) h
  | pop => exact moves_thenAdvance rfl (stackOnly_pop.bind fun _ => stackOnly_pure ()) h
  | isub => exact moves_thenAdvance rfl (stackOnly_binary _) h
  | imul => exact moves_thenAdvance rfl (stackOnly_binary _) h
  | bipush =>
    cases operand with
    | immediate value => exact moves_thenAdvance rfl (stackOnly_push _) h
    | _ => cases h
  | ldc =>
    cases operand with
    | index slot => exact moves_thenAdvance rfl (stackOnly_push _) h
    | _ => cases h
  | getstatic =>
    cases operand with
    | index slot => exact moves_thenAdvance rfl (stackOnly_push _) h
    | _ => cases h
  | goto =>
    cases operand with
    | offset distance =>
      obtain ⟨_, middle, hbranch, hok⟩ := bind_eq_ok_iff.1 h
      cases hok
      exact ⟨rfl, moves_branch frame.stack rfl rfl hbranch⟩
    | _ => cases h
  | ifIcmpne =>
    cases operand with
    | offset distance =>
      obtain ⟨_, middle, hbranch, hok⟩ := bind_eq_ok_iff.1 h
      cases hok
      exact ⟨rfl, moves_branchUnlessEqual rfl rfl hbranch⟩
    | _ => cases h
  | invokestatic =>
    cases operand with
    | index slot => cases hcall
    | _ => cases h

/-! ## Calls -/

/-- An instruction that is a call does what the call does. -/
theorem execute_of_call (machine : Machine) (depth : Nat) {instruction : Instruction} {index : UInt16}
    (hcall : instruction.callIndex? = some index) (frame : Frame) :
    machine.execute depth instruction frame =
      match machine.call depth index frame with
      | .ok call after => .ok (some call) after
      | .error failure after => .error failure after := by
  obtain ⟨opcode, operand⟩ := instruction
  unfold Instruction.callIndex? at hcall
  split at hcall
  · rename_i heq
    cases heq; cases hcall
    unfold execute
    rcases h : machine.call depth index frame with ⟨call, after⟩ | ⟨failure, after⟩
    · exact bind_of_ok h
    · exact bind_of_error h
  · cases hcall

/-- How a call finds its method: by the reference, the class, the method in it and the descriptor. -/
theorem resolve_eq (machine : Machine) (caller : ClassFile) (index : UInt16) :
    machine.resolve caller index =
      match caller.pool.methodRef index with
      | .error error => .error (.unresolved error)
      | .ok ref =>
        match machine.classes.find? ref.className with
        | none => .error (.noClass ref.className)
        | some classFile =>
          match classFile.findMethod? ref.name ref.descriptor with
          | none => .error (.noMethod ref)
          | some method =>
            match Descriptor.parse ref.descriptor with
            | .error error => .error (.badDescriptor error)
            | .ok descriptor => .ok { ref, classFile, method, descriptor } := by
  unfold resolve
  rcases caller.pool.methodRef index with error | ref
  · rfl
  rw [show (Except.ok ref).mapError Fault.unresolved = .ok ref from rfl]
  simp only [bind, Except.bind]
  rcases machine.classes.find? ref.className with _ | classFile
  · rfl
  dsimp only
  rcases classFile.findMethod? ref.name ref.descriptor with _ | method
  · rfl
  · rcases Descriptor.parse ref.descriptor with error | descriptor <;> rfl

/-- A call that finds its method has followed every step to it. -/
theorem resolve_eq_ok {machine : Machine} {caller : ClassFile} {index : UInt16} {target : Target}
    (h : machine.resolve caller index = .ok target) :
    caller.pool.methodRef index = .ok target.ref ∧
      machine.classes.find? target.ref.className = some target.classFile ∧
      target.classFile.findMethod? target.ref.name target.ref.descriptor = some target.method ∧
      Descriptor.parse target.ref.descriptor = .ok target.descriptor := by
  rw [resolve_eq] at h
  rcases href : caller.pool.methodRef index with error | ref
  · rw [href] at h; cases h
  rw [href] at h
  dsimp only at h
  rcases hfind : machine.classes.find? ref.className with _ | classFile
  · rw [hfind] at h; cases h
  rw [hfind] at h
  dsimp only at h
  rcases hmethod : classFile.findMethod? ref.name ref.descriptor with _ | method
  · rw [hmethod] at h; cases h
  rw [hmethod] at h
  dsimp only at h
  rcases hdescriptor : Descriptor.parse ref.descriptor with error | descriptor
  · rw [hdescriptor] at h; cases h
  · rw [hdescriptor] at h
    cases h
    exact ⟨rfl, hfind, hmethod, hdescriptor⟩

/-- What a call does: it resolves the target, looks at the depth, takes the arguments and builds the
frame of the callee, and changes the caller only if all of this succeeds. -/
theorem call_eq (machine : Machine) (depth : Nat) (index : UInt16) (caller : Frame) :
    machine.call depth index caller =
      match machine.resolve caller.classFile index with
      | .error fault => .error (.ofFault fault) caller
      | .ok target =>
        if machine.limits.callDepth ≤ depth then
          .error (.ofFault (.callDepthLimit machine.limits.callDepth)) caller
        else
          match caller.stack.splitTop? target.descriptor.arity with
          | none => .error (.ofFault .stackUnderflow) caller
          | some (arguments, stack) =>
            match Frame.enter target.classFile target.method arguments target.descriptor.returnsValue with
            | .error fault =>
              .error ((Failure.ofFault fault).locate (.entry (target.classFile.site target.method))) caller
            | .ok callee =>
              .ok { target := target.ref, callee }
                { caller with stack, pc := caller.pc + Opcode.invokestatic.length } := by
  unfold call
  rw [get_bind]
  rcases machine.resolve caller.classFile index with fault | target
  · exact bind_of_error rfl
  refine (bind_of_ok (show Action.ofExcept (.ok target) caller = .ok target caller from rfl)).trans ?_
  by_cases hdepth : machine.limits.callDepth ≤ depth
  · simp only [hdepth, if_true]; rfl
  simp only [hdepth, if_false]
  rcases caller.stack.splitTop? target.descriptor.arity with _ | ⟨arguments, stack⟩
  · rfl
  rcases henter : Frame.enter target.classFile target.method arguments target.descriptor.returnsValue with
    fault | callee
  · simp only [henter]; rfl
  · simp only [henter]; rfl

/-- A call that a frame can make through an index: the method it leads to, with its code, and the values on the
stack, of which the last ones are the arguments. -/
structure Dispatch (machine : Machine) (caller : Frame) (index : UInt16) where
  target : Target
  code : Code
  below : List Int32
  arguments : List Int32
  resolve_eq : machine.resolve caller.classFile index = .ok target
  code_eq : target.method.code target.classFile.pool = .ok code
  values_eq : caller.stack.values = below ++ arguments
  length_arguments : arguments.length = target.descriptor.arity

namespace Dispatch

variable {machine : Machine} {caller : Frame} {index : UInt16} (dispatch : Dispatch machine caller index)

/-- The method called, about to start: its arguments are its first locals, and zeros fill up the room its code asks
for. -/
def callee : Frame where
  classFile := dispatch.target.classFile
  site := dispatch.target.classFile.site dispatch.target.method
  code := dispatch.code
  pc := 0
  stack := .empty
  locals :=
    let room := max dispatch.code.maxLocals.toNat dispatch.target.descriptor.arity
    dispatch.arguments ++ List.replicate (room - dispatch.target.descriptor.arity) 0
  returnValue := 0
  returnsValue := dispatch.target.descriptor.returnsValue

/-- The caller behind the call and without the arguments. -/
def waiting : Frame :=
  { caller with pc := caller.pc + 3, stack := .ofValues dispatch.below }

/-- The caller behind the call once the method called has yielded a value, which it gets for a result of type
`int`. -/
def resumed (value : Int32) : Frame :=
  { caller with
    pc := caller.pc + 3
    stack := .ofValues (dispatch.below ++ match dispatch.target.descriptor.result with
      | .int => [value]
      | .void => []) }

theorem waiting_sameActivation : SameActivation caller dispatch.waiting :=
  ⟨rfl, rfl, rfl, rfl, rfl⟩

end Dispatch

/-- A call that is made has a method that can be entered, enough values and room for one more frame. -/
theorem call_eq_ok {machine : Machine} {depth : Nat} {index : UInt16} {caller after : Frame} {call : Call}
    (h : machine.call depth index caller = .ok call after) :
    depth < machine.limits.callDepth ∧ ∃ dispatch : Dispatch machine caller index,
      call = { target := dispatch.target.ref, callee := dispatch.callee } ∧ after = dispatch.waiting := by
  rw [call_eq] at h
  rcases hresolve : machine.resolve caller.classFile index with fault | target
  · rw [hresolve] at h; cases h
  rw [hresolve] at h
  dsimp only at h
  split at h
  · cases h
  rename_i hdepth
  rcases hsplit : caller.stack.splitTop? target.descriptor.arity with _ | ⟨arguments, stack⟩
  · rw [hsplit] at h; cases h
  rw [hsplit] at h
  rcases henter : enter target.classFile target.method arguments target.descriptor.returnsValue with fault | callee
  · simp only [henter] at h; cases h
  simp only [henter] at h
  cases h
  obtain ⟨code, hcode, rfl⟩ := enter_eq_ok henter
  obtain ⟨hvalues, hlength⟩ := OperandStack.values_of_splitTop? hsplit
  refine ⟨Nat.lt_of_not_le hdepth, ⟨target, code, stack.values, arguments, hresolve, hcode, hvalues, hlength⟩, ?_, ?_⟩
  · have hroom : code.maxLocals.toNat - arguments.length =
        max code.maxLocals.toNat target.descriptor.arity - target.descriptor.arity := by
      rw [hlength]
      omega
    unfold Dispatch.callee initialLocals
    rw [hroom]
  · unfold Dispatch.waiting
    rw [OperandStack.ofValues_values]
    rfl

/-- An instruction that is executed either moves within its frame or is a call. -/
theorem execute_eq_ok {machine : Machine} {depth : Nat} {instruction : Instruction} {frame after : Frame}
    {call : Option Call} (h : machine.execute depth instruction frame = .ok call after) :
    (call = none ∧ Moves instruction frame after) ∨
      ∃ index, instruction = ⟨.invokestatic, .index index⟩ ∧ depth < machine.limits.callDepth ∧
        ∃ dispatch : Dispatch machine frame index,
          call = some { target := dispatch.target.ref, callee := dispatch.callee } ∧ after = dispatch.waiting := by
  rcases hindex : instruction.callIndex? with _ | index
  · exact .inl (execute_moves machine depth hindex h)
  rw [execute_of_call machine depth hindex] at h
  rcases hcall : machine.call depth index frame with ⟨made, middle⟩ | ⟨failure, middle⟩
  · rw [hcall] at h
    cases h
    obtain ⟨hdepth, dispatch, rfl, rfl⟩ := call_eq_ok hcall
    exact .inr ⟨index, Instruction.eq_of_callIndex? hindex, hdepth, dispatch, rfl, rfl⟩
  · rw [hcall] at h
    cases h

end Machine

end ClassMachine
