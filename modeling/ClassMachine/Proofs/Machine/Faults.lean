/-
What an instruction can fail with. Each opcode has faults of its own (`Opcode.Raises`), and an instruction
fails with one of these and names no place. The one exception is a call that finds its method but no code
for it: this failure is placed at the start of the method that was called (`execute_error`).
-/
import ClassMachine.Proofs.Instruction
import ClassMachine.Proofs.Machine.Activation

namespace ClassMachine

/-- The faults that an instruction of this kind can raise. -/
def Opcode.Raises : Opcode → Fault → Prop
  | iload0, .noLocal index size => index = 0 ∧ size = 0
  | pop, .stackUnderflow | isub, .stackUnderflow | imul, .stackUnderflow | ireturn, .stackUnderflow => True
  | ifIcmpne, .stackUnderflow | ifIcmpne, .branchOutside _ | goto, .branchOutside _ => True
  | invokestatic, .unresolved _ | invokestatic, .noClass _ | invokestatic, .noMethod _
  | invokestatic, .badDescriptor _ | invokestatic, .callDepthLimit _ | invokestatic, .stackUnderflow => True
  | _, .badOperand .. => True
  | _, _ => False

/-- The fault is not that of an operand which does not go with its opcode. -/
def Fault.SparesOperand (fault : Fault) : Prop :=
  ∀ byte operand, fault ≠ .badOperand byte operand

namespace Frame.Action

/-! ## Actions that fail -/

/-- The action fails with such faults only, and names no place. -/
def FailsOnly {α : Type} (faults : Fault → Prop) (action : Action α) : Prop :=
  ∀ frame failure after, action frame = .error failure after → ∃ fault, failure = .ofFault fault ∧ faults fault

variable {faults : Fault → Prop}

theorem FailsOnly.bind {α β : Type} {action : Action α} {next : α → Action β} (h : FailsOnly faults action)
    (h' : ∀ a, FailsOnly faults (next a)) : FailsOnly faults (action >>= next) := by
  intro frame failure after hfails
  rcases haction : action frame with ⟨a, middle⟩ | ⟨failed, middle⟩
  · rw [bind_of_ok haction] at hfails
    exact h' a middle failure after hfails
  · rw [bind_of_error haction] at hfails
    cases hfails
    exact h frame failure after haction

theorem failsOnly_pure {α : Type} (a : α) : FailsOnly faults (pure a) := by
  intro frame failure after h
  cases h

theorem failsOnly_fail {α : Type} {fault : Fault} (hfault : faults fault) :
    FailsOnly faults (fail fault : Action α) := by
  intro frame failure after h
  cases h
  exact ⟨fault, rfl, hfault⟩

theorem failsOnly_push (value : Int32) : FailsOnly faults (push value) := by
  intro frame failure after h
  cases h

theorem failsOnly_advance (length : Nat) : FailsOnly faults (advance length) := by
  intro frame failure after h
  cases h

theorem failsOnly_leave (value : Int32) : FailsOnly faults (leave value) := by
  intro frame failure after h
  cases h

theorem failsOnly_pop (hfault : faults .stackUnderflow) : FailsOnly faults pop := by
  intro frame failure after h
  rw [pop_eq] at h
  split at h
  · cases h
  · cases h; exact ⟨_, rfl, hfault⟩

theorem failsOnly_load {index : Nat} (hfault : ∀ size ≤ index, faults (.noLocal index size)) :
    FailsOnly faults (load index) := by
  intro frame failure after h
  rw [load_eq] at h
  split at h
  · cases h
  · rename_i hnone
    cases h
    exact ⟨_, rfl, hfault _ (List.getElem?_eq_none_iff.1 hnone)⟩

theorem failsOnly_branch {distance : Int16} (hfault : ∀ target, faults (.branchOutside target)) :
    FailsOnly faults (branch distance) := by
  intro frame failure after h
  rw [branch_eq] at h
  split at h
  · cases h; exact ⟨_, rfl, hfault _⟩
  · cases h

end Frame.Action

namespace Machine

open ClassMachine.Frame ClassMachine.Frame.Action

variable {faults : Fault → Prop}

theorem failsOnly_binary {operation : Int32 → Int32 → Int32} (hfault : faults .stackUnderflow) :
    FailsOnly faults (binary operation) :=
  (failsOnly_pop hfault).bind fun _ => (failsOnly_pop hfault).bind fun _ => failsOnly_push _

theorem failsOnly_branchUnlessEqual {distance : Int16} {length : Nat} (hpop : faults .stackUnderflow)
    (hbranch : ∀ target, faults (.branchOutside target)) : FailsOnly faults (branchUnlessEqual distance length) := by
  refine (failsOnly_pop hpop).bind fun right => (failsOnly_pop hpop).bind fun left => ?_
  split
  · exact failsOnly_branch hbranch
  · exact failsOnly_advance length

theorem failsOnly_withoutCall {action : Action Unit} (h : FailsOnly faults action) :
    FailsOnly faults (execute.withoutCall action) :=
  h.bind fun _ => failsOnly_pure none

theorem failsOnly_thenAdvance {action : Action Unit} (instruction : Instruction) (h : FailsOnly faults action) :
    FailsOnly faults (execute.thenAdvance instruction action) :=
  h.bind fun _ => (failsOnly_advance _).bind fun _ => failsOnly_pure none

/-- An instruction that is no call fails in a way of its opcode, and for its operand only if that does not go with the
opcode. -/
theorem failsOnly_execute_of (machine : Machine) (depth : Nat) {instruction : Instruction}
    (hcall : instruction.callIndex? = none)
    (hraises : ∀ fault, instruction.opcode.Raises fault → fault.SparesOperand → faults fault)
    (hoperand : instruction.fits = false → faults (.badOperand instruction.opcode.byte instruction.operand)) :
    FailsOnly faults (machine.execute depth instruction) := by
  obtain ⟨opcode, operand⟩ := instruction
  cases opcode with
  | iconst1 => exact failsOnly_thenAdvance _ (failsOnly_push _)
  | iload0 =>
    have hload : FailsOnly faults (load 0) :=
      failsOnly_load fun size hsize => hraises _ ⟨rfl, Nat.eq_zero_of_le_zero hsize⟩ nofun
    exact failsOnly_thenAdvance _ (hload.bind fun _ => failsOnly_push _)
  | pop => exact failsOnly_thenAdvance _ ((failsOnly_pop (hraises _ trivial nofun)).bind fun _ => failsOnly_pure ())
  | isub => exact failsOnly_thenAdvance _ (failsOnly_binary (hraises _ trivial nofun))
  | imul => exact failsOnly_thenAdvance _ (failsOnly_binary (hraises _ trivial nofun))
  | ireturn =>
    exact failsOnly_withoutCall ((failsOnly_pop (hraises _ trivial nofun)).bind fun _ => failsOnly_leave _)
  | voidReturn => exact failsOnly_withoutCall (failsOnly_leave 0)
  | bipush =>
    cases operand with
    | immediate value => exact failsOnly_thenAdvance _ (failsOnly_push _)
    | _ => exact failsOnly_fail (hoperand rfl)
  | ldc =>
    cases operand with
    | index slot => exact failsOnly_thenAdvance _ (failsOnly_push _)
    | _ => exact failsOnly_fail (hoperand rfl)
  | getstatic =>
    cases operand with
    | index slot => exact failsOnly_thenAdvance _ (failsOnly_push _)
    | _ => exact failsOnly_fail (hoperand rfl)
  | ifIcmpne =>
    cases operand with
    | offset distance =>
      exact failsOnly_withoutCall
        (failsOnly_branchUnlessEqual (hraises _ trivial nofun) fun _ => hraises _ trivial nofun)
    | _ => exact failsOnly_fail (hoperand rfl)
  | goto =>
    cases operand with
    | offset distance => exact failsOnly_withoutCall (failsOnly_branch fun _ => hraises _ trivial nofun)
    | _ => exact failsOnly_fail (hoperand rfl)
  | invokestatic =>
    cases operand with
    | index slot => cases hcall
    | _ => exact failsOnly_fail (hoperand rfl)

/-- An instruction that is no call raises a fault of its opcode. -/
theorem failsOnly_execute (machine : Machine) (depth : Nat) {instruction : Instruction}
    (hcall : instruction.callIndex? = none) :
    FailsOnly instruction.opcode.Raises (machine.execute depth instruction) := by
  refine failsOnly_execute_of machine depth hcall (fun _ hraises _ => hraises) fun _ => ?_
  cases instruction.opcode <;> trivial

/-! ## Calls that fail -/

theorem resolve_error {machine : Machine} {caller : ClassFile} {index : UInt16} {fault : Fault}
    (h : machine.resolve caller index = .error fault) : Opcode.invokestatic.Raises fault ∧ fault.SparesOperand := by
  rw [resolve_eq] at h
  split at h
  · cases h; exact ⟨trivial, nofun⟩
  split at h
  · cases h; exact ⟨trivial, nofun⟩
  split at h
  · cases h; exact ⟨trivial, nofun⟩
  split at h
  · cases h; exact ⟨trivial, nofun⟩
  · cases h

/-- The method that a call leads to has no code that can be run, and the failure says so at its start. -/
def Uncallable (machine : Machine) (caller : ClassFile) (index : UInt16) (failure : Failure) : Prop :=
  ∃ target error, machine.resolve caller index = .ok target ∧
    target.method.code target.classFile.pool = .error error ∧
    failure = (Failure.ofFault (.noCode error)).locate (.entry (target.classFile.site target.method))

theorem enter_error {classFile : ClassFile} {method : Member} {arguments : List Int32} {returnsValue : Bool}
    {fault : Fault} (h : enter classFile method arguments returnsValue = .error fault) :
    ∃ error, method.code classFile.pool = .error error ∧ fault = .noCode error := by
  unfold enter at h
  rcases hcode : method.code classFile.pool with error | code
  · rw [hcode] at h; cases h; exact ⟨error, rfl, rfl⟩
  · rw [hcode] at h; cases h

theorem call_error {machine : Machine} {depth : Nat} {index : UInt16} {caller after : Frame} {failure : Failure}
    (h : machine.call depth index caller = .error failure after) :
    (∃ fault, failure = .ofFault fault ∧ Opcode.invokestatic.Raises fault ∧ fault.SparesOperand) ∨
      machine.Uncallable caller.classFile index failure := by
  rw [call_eq] at h
  rcases hresolve : machine.resolve caller.classFile index with fault | target
  · rw [hresolve] at h
    cases h
    exact .inl ⟨fault, rfl, resolve_error hresolve⟩
  rw [hresolve] at h
  dsimp only at h
  split at h
  · cases h; exact .inl ⟨_, rfl, trivial, nofun⟩
  rcases hsplit : caller.stack.splitTop? target.descriptor.arity with _ | ⟨arguments, stack⟩
  · rw [hsplit] at h
    cases h; exact .inl ⟨_, rfl, trivial, nofun⟩
  rw [hsplit] at h
  rcases henter : enter target.classFile target.method arguments target.descriptor.returnsValue with
    fault | callee
  · simp only [henter] at h
    cases h
    obtain ⟨error, hcode, rfl⟩ := enter_error henter
    exact .inr ⟨target, error, hresolve, hcode, rfl⟩
  · simp only [henter] at h
    cases h

/-- An instruction fails with a fault of its opcode, or it is a call of a method without code. -/
theorem execute_error {machine : Machine} {depth : Nat} {instruction : Instruction} {frame after : Frame}
    {failure : Failure} (h : machine.execute depth instruction frame = .error failure after) :
    (∃ fault, failure = .ofFault fault ∧ instruction.opcode.Raises fault) ∨
      ∃ index, instruction.callIndex? = some index ∧ machine.Uncallable frame.classFile index failure := by
  rcases hcall : instruction.callIndex? with _ | index
  · exact .inl (failsOnly_execute machine depth hcall frame failure after h)
  rw [execute_of_call machine depth hcall] at h
  rcases hfails : machine.call depth index frame with ⟨call, _⟩ | ⟨failed, _⟩
  · rw [hfails] at h
    cases h
  · rw [hfails] at h
    cases h
    rw [Instruction.eq_of_callIndex? hcall]
    rcases call_error hfails with ⟨fault, hfailure, hraises, -⟩ | huncallable
    · exact .inl ⟨fault, hfailure, hraises⟩
    · exact .inr ⟨index, rfl, huncallable⟩

end Machine

end ClassMachine
