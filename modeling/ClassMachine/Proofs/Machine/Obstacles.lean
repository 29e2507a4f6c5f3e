/-
Calls that cannot be made. Seven things can stand in the way of a call: the reference leads nowhere, the class or the
method is not there, the descriptor is none, the depth is used up, there are too few operands, or the method has no
code. `Obstructs` states each of them by itself, whether or not others are there too, and `Obstacle.order` the order in
which they are looked for. A call is made exactly if nothing stands in its way; otherwise it fails at the first
obstacle, and the caller stays as it is.
-/
import ClassMachine.Proofs.Machine.Faults

namespace ClassMachine.Machine

/-! ## Obstacles -/

/-- What can stand in the way of a call. -/
inductive Obstacle where
  | reference
  | absentClass
  | absentMethod
  | descriptor
  | depth
  | operands
  | code
  deriving DecidableEq

/-- The order in which obstacles are looked for. -/
def Obstacle.order : List Obstacle :=
  [reference, absentClass, absentMethod, descriptor, depth, operands, code]

/-- The obstacles that are looked for before this one. -/
def Obstacle.earlier (obstacle : Obstacle) : List Obstacle :=
  Obstacle.order.takeWhile (· ≠ obstacle)

theorem Obstacle.eq_or_earlier (first second : Obstacle) :
    first = second ∨ first ∈ second.earlier ∨ second ∈ first.earlier := by
  cases first <;> cases second <;> decide

/-- The obstacle stands in the way of a call through this index, and the call would fail so because of it. -/
inductive Obstructs (machine : Machine) (depth : Nat) (index : UInt16) (caller : Frame) : Obstacle → Failure → Prop
  /-- The index leads to no method reference. -/
  | reference {error : ResolveError} (href : caller.classFile.pool.methodRef index = .error error) :
      Obstructs machine depth index caller .reference (.ofFault (.unresolved error))
  | absentClass {ref : MemberRef} (href : caller.classFile.pool.methodRef index = .ok ref)
      (hclass : machine.classes.find? ref.className = none) :
      Obstructs machine depth index caller .absentClass (.ofFault (.noClass ref.className))
  | absentMethod {ref : MemberRef} {classFile : ClassFile} (href : caller.classFile.pool.methodRef index = .ok ref)
      (hclass : machine.classes.find? ref.className = some classFile)
      (hmethod : classFile.findMethod? ref.name ref.descriptor = none) :
      Obstructs machine depth index caller .absentMethod (.ofFault (.noMethod ref))
  /-- The descriptor in the reference is malformed or has a symbol that stands for no type. -/
  | descriptor {ref : MemberRef} {error : DescriptorError} (href : caller.classFile.pool.methodRef index = .ok ref)
      (hdescriptor : Descriptor.parse ref.descriptor = .error error) :
      Obstructs machine depth index caller .descriptor (.ofFault (.badDescriptor error))
  | depth (hdepth : machine.limits.callDepth ≤ depth) :
      Obstructs machine depth index caller .depth (.ofFault (.callDepthLimit machine.limits.callDepth))
  /-- The stack of the caller holds fewer values than the descriptor has arguments. -/
  | operands {ref : MemberRef} {descriptor : Descriptor} (href : caller.classFile.pool.methodRef index = .ok ref)
      (hdescriptor : Descriptor.parse ref.descriptor = .ok descriptor)
      (hfew : caller.stack.values.length < descriptor.arity) :
      Obstructs machine depth index caller .operands (.ofFault .stackUnderflow)
  /-- The code of the method is missing or malformed, which is told at the start of that method. -/
  | code {ref : MemberRef} {classFile : ClassFile} {method : Member} {error : CodeError}
      (href : caller.classFile.pool.methodRef index = .ok ref)
      (hclass : machine.classes.find? ref.className = some classFile)
      (hmethod : classFile.findMethod? ref.name ref.descriptor = some method)
      (hcode : method.code classFile.pool = .error error) :
      Obstructs machine depth index caller .code
        ((Failure.ofFault (.noCode error)).locate (.entry (classFile.site method)))

variable {machine : Machine} {depth : Nat} {index : UInt16} {caller : Frame}

/-- An obstacle has one failure. -/
theorem Obstructs.unique {obstacle : Obstacle} {failure other : Failure}
    (h : machine.Obstructs depth index caller obstacle failure)
    (h' : machine.Obstructs depth index caller obstacle other) : failure = other := by
  cases h <;> cases h' <;> simp_all

/-- The call fails so because of this obstacle, and no obstacle is there that is looked for earlier. -/
def ObstructsFirst (machine : Machine) (depth : Nat) (index : UInt16) (caller : Frame) (obstacle : Obstacle)
    (failure : Failure) : Prop :=
  machine.Obstructs depth index caller obstacle failure ∧
    ∀ earlier ∈ obstacle.earlier, ∀ other, ¬ machine.Obstructs depth index caller earlier other

/-- Of all obstacles one is the first. -/
theorem ObstructsFirst.unique {obstacle obstacle' : Obstacle} {failure failure' : Failure}
    (h : machine.ObstructsFirst depth index caller obstacle failure)
    (h' : machine.ObstructsFirst depth index caller obstacle' failure') : failure = failure' := by
  rcases obstacle.eq_or_earlier obstacle' with rfl | hearlier | hearlier
  · exact h.1.unique h'.1
  · exact absurd h.1 (h'.2 _ hearlier _)
  · exact absurd h'.1 (h.2 _ hearlier _)

/-! ## Obstacles that are out of the way -/

section

variable {ref : MemberRef} {classFile : ClassFile} {method : Member} {descriptor : Descriptor} {code : Code}
  (href : caller.classFile.pool.methodRef index = .ok ref)

include href

theorem not_obstructs_reference (failure : Failure) : ¬ machine.Obstructs depth index caller .reference failure := by
  rintro ⟨hother⟩
  rw [href] at hother
  cases hother

theorem not_obstructs_absentClass (hclass : machine.classes.find? ref.className = some classFile) (failure : Failure) :
    ¬ machine.Obstructs depth index caller .absentClass failure := by
  intro h
  cases h with
  | absentClass hother hnone =>
    rw [href] at hother
    cases hother
    rw [hclass] at hnone
    cases hnone

theorem not_obstructs_absentMethod (hclass : machine.classes.find? ref.className = some classFile)
    (hmethod : classFile.findMethod? ref.name ref.descriptor = some method) (failure : Failure) :
    ¬ machine.Obstructs depth index caller .absentMethod failure := by
  intro h
  cases h with
  | absentMethod hother hclass' hnone =>
    rw [href] at hother
    cases hother
    rw [hclass] at hclass'
    cases hclass'
    rw [hmethod] at hnone
    cases hnone

theorem not_obstructs_descriptor (hdescriptor : Descriptor.parse ref.descriptor = .ok descriptor) (failure : Failure) :
    ¬ machine.Obstructs depth index caller .descriptor failure := by
  intro h
  cases h with
  | descriptor hother herror =>
    rw [href] at hother
    cases hother
    rw [hdescriptor] at herror
    cases herror

omit href in
theorem not_obstructs_depth (hdepth : depth < machine.limits.callDepth) (failure : Failure) :
    ¬ machine.Obstructs depth index caller .depth failure := by
  rintro ⟨hreached⟩
  omega

theorem not_obstructs_operands (hdescriptor : Descriptor.parse ref.descriptor = .ok descriptor)
    (henough : descriptor.arity ≤ caller.stack.values.length) (failure : Failure) :
    ¬ machine.Obstructs depth index caller .operands failure := by
  intro h
  cases h with
  | operands hother hdescriptor' hfew =>
    rw [href] at hother
    cases hother
    rw [hdescriptor] at hdescriptor'
    cases hdescriptor'
    omega

theorem not_obstructs_code (hclass : machine.classes.find? ref.className = some classFile)
    (hmethod : classFile.findMethod? ref.name ref.descriptor = some method)
    (hcode : method.code classFile.pool = .ok code) (failure : Failure) :
    ¬ machine.Obstructs depth index caller .code failure := by
  intro h
  cases h with
  | code hother hclass' hmethod' herror =>
    rw [href] at hother
    cases hother
    rw [hclass] at hclass'
    cases hclass'
    rw [hmethod] at hmethod'
    cases hmethod'
    rw [hcode] at herror
    cases herror

end

/-! ## Calls that are made, and calls that fail -/

/-- Nothing stands in the way of a call that is made. -/
theorem not_obstructs_of_call {call : Call} {after : Frame} (h : machine.call depth index caller = .ok call after)
    (obstacle : Obstacle) (failure : Failure) : ¬ machine.Obstructs depth index caller obstacle failure := by
  obtain ⟨hdepth, dispatch, -, -⟩ := call_eq_ok h
  obtain ⟨href, hclass, hmethod, hdescriptor⟩ := resolve_eq_ok dispatch.resolve_eq
  cases obstacle with
  | reference => exact not_obstructs_reference href failure
  | absentClass => exact not_obstructs_absentClass href hclass failure
  | absentMethod => exact not_obstructs_absentMethod href hclass hmethod failure
  | descriptor => exact not_obstructs_descriptor href hdescriptor failure
  | depth => exact not_obstructs_depth hdepth failure
  | operands =>
    refine not_obstructs_operands href hdescriptor ?_ failure
    rw [dispatch.values_eq, List.length_append, dispatch.length_arguments]
    exact Nat.le_add_left _ _
  | code => exact not_obstructs_code href hclass hmethod dispatch.code_eq failure

/-- A call that does not find its method fails at the first obstacle on the way to it. -/
theorem obstructsFirst_of_resolve {fault : Fault} (h : machine.resolve caller.classFile index = .error fault) :
    ∃ obstacle, machine.ObstructsFirst depth index caller obstacle (.ofFault fault) := by
  rw [resolve_eq] at h
  rcases href : caller.classFile.pool.methodRef index with error | ref
  · simp only [href] at h
    cases h
    exact ⟨.reference, .reference href, nofun⟩
  simp only [href] at h
  have hreference := @not_obstructs_reference machine depth _ _ _ href
  rcases hclass : machine.classes.find? ref.className with _ | classFile
  · simp only [hclass] at h
    cases h
    exact ⟨.absentClass, .absentClass href hclass, List.forall_mem_singleton.2 hreference⟩
  simp only [hclass] at h
  have habsentClass := @not_obstructs_absentClass machine depth _ _ _ _ href hclass
  rcases hmethod : classFile.findMethod? ref.name ref.descriptor with _ | method
  · simp only [hmethod] at h
    cases h
    refine ⟨.absentMethod, .absentMethod href hclass hmethod, ?_⟩
    simpa [Obstacle.earlier, Obstacle.order] using ⟨hreference, habsentClass⟩
  simp only [hmethod] at h
  have habsentMethod := @not_obstructs_absentMethod machine depth _ _ _ _ _ href hclass hmethod
  rcases hdescriptor : Descriptor.parse ref.descriptor with error | descriptor
  · simp only [hdescriptor] at h
    cases h
    refine ⟨.descriptor, .descriptor href hdescriptor, ?_⟩
    simpa [Obstacle.earlier, Obstacle.order] using ⟨hreference, habsentClass, habsentMethod⟩
  · simp only [hdescriptor] at h
    cases h

/-- A call that fails does so at the first obstacle, and changes nothing. -/
theorem obstructsFirst_of_call {failure : Failure} {after : Frame}
    (h : machine.call depth index caller = .error failure after) :
    after = caller ∧ ∃ obstacle, machine.ObstructsFirst depth index caller obstacle failure := by
  rw [call_eq] at h
  rcases hresolve : machine.resolve caller.classFile index with fault | target
  · simp only [hresolve] at h
    cases h
    exact ⟨rfl, obstructsFirst_of_resolve hresolve⟩
  simp only [hresolve] at h
  obtain ⟨href, hclass, hmethod, hdescriptor⟩ := resolve_eq_ok hresolve
  have hreference := @not_obstructs_reference machine depth _ _ _ href
  have habsentClass := @not_obstructs_absentClass machine depth _ _ _ _ href hclass
  have habsentMethod := @not_obstructs_absentMethod machine depth _ _ _ _ _ href hclass hmethod
  have hparsed := @not_obstructs_descriptor machine depth _ _ _ _ href hdescriptor
  split at h
  · rename_i hreached
    cases h
    refine ⟨rfl, .depth, .depth hreached, ?_⟩
    simpa [Obstacle.earlier, Obstacle.order] using ⟨hreference, habsentClass, habsentMethod, hparsed⟩
  rename_i hroom
  have hdepth := @not_obstructs_depth machine depth index caller (Nat.lt_of_not_le hroom)
  rcases hsplit : caller.stack.splitTop? target.descriptor.arity with _ | ⟨arguments, stack⟩
  · simp only [hsplit] at h
    cases h
    refine ⟨rfl, .operands, .operands href hdescriptor (OperandStack.splitTop?_eq_none_iff.1 hsplit), ?_⟩
    simpa [Obstacle.earlier, Obstacle.order] using ⟨hreference, habsentClass, habsentMethod, hparsed, hdepth⟩
  simp only [hsplit] at h
  have hoperands : ∀ other, ¬ machine.Obstructs depth index caller .operands other := by
    obtain ⟨hvalues, hlength⟩ := OperandStack.values_of_splitTop? hsplit
    refine not_obstructs_operands href hdescriptor ?_
    rw [hvalues, List.length_append, hlength]
    exact Nat.le_add_left _ _
  rcases henter : Frame.enter target.classFile target.method arguments target.descriptor.returnsValue with
    fault | callee
  · simp only [henter] at h
    cases h
    obtain ⟨error, hcode, rfl⟩ := enter_error henter
    refine ⟨rfl, .code, .code href hclass hmethod hcode, ?_⟩
    simpa [Obstacle.earlier, Obstacle.order] using
      ⟨hreference, habsentClass, habsentMethod, hparsed, hdepth, hoperands⟩
  · simp only [henter] at h
    cases h

/-- A call that fails leaves the caller intact. For all classes and limits, in whatever state the caller is and at
whatever depth, a call is made exactly if no obstacle is there: the index leads to a method reference, the class is
known, the method is in it, the descriptor in the reference is one, there is room for one more frame, the stack holds
as many values as there are arguments, and the method has code. Otherwise it fails at the first of these that is not
so, and the caller has the place, the stack, the locals and the result that it had before. -/
theorem call_fails_at_first_obstacle (machine : Machine) (depth : Nat) (index : UInt16) (caller : Frame) :
    ((∃ call after, machine.call depth index caller = .ok call after) ↔
      ∀ obstacle failure, ¬ machine.Obstructs depth index caller obstacle failure) ∧
    ∀ failure after, machine.call depth index caller = .error failure after ↔
      after = caller ∧ ∃ obstacle, machine.ObstructsFirst depth index caller obstacle failure := by
  rcases hcall : machine.call depth index caller with ⟨call, after⟩ | ⟨failure, after⟩
  · have hfree := not_obstructs_of_call hcall
    refine ⟨⟨fun _ => hfree, fun _ => ⟨call, after, rfl⟩⟩, fun failure after => ⟨nofun, ?_⟩⟩
    rintro ⟨-, obstacle, hfirst⟩
    exact absurd hfirst.1 (hfree obstacle failure)
  · obtain ⟨rfl, obstacle, hfirst⟩ := obstructsFirst_of_call hcall
    refine ⟨⟨nofun, fun hfree => absurd hfirst.1 (hfree obstacle failure)⟩, fun other after => ⟨?_, ?_⟩⟩
    · intro h
      cases h
      exact ⟨rfl, obstacle, hfirst⟩
    · rintro ⟨rfl, obstacle', hfirst'⟩
      rw [hfirst.unique hfirst']

end ClassMachine.Machine
