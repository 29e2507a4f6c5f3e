/-
Where frames stand in their code. Nothing checks code before it is run, so a jump may lead into the operand of another
instruction, behind the end of the code or before its front. Reading an instruction looks at the bytes it needs, so one
that is read ends within the code, and its operand is of the form that its opcode takes. The invariant of a run follows
from that (`WithinCode`): frames that wait stand within their code or at its end, and the frame on top is behind the end
by less than the longest jump. There it is done: only a jump that is taken leads behind the end, and nothing is read
there.
-/
import ClassMachine.Proofs.ClassFile.Code
import ClassMachine.Proofs.Machine.Faults
import ClassMachine.Proofs.Machine.Nesting
import ClassMachine.Proofs.Machine.Watching

namespace ClassMachine

open ClassMachine.Frame ClassMachine.Frame.Action

/-! ## Jumps -/

/-- The instruction jumps from the place of the frame by this distance: in any case, or because the two topmost values
differ. -/
inductive Frame.Jumps (frame : Frame) : Instruction → Int16 → Prop where
  | goto (distance : Int16) : Jumps frame ⟨.goto, .offset distance⟩ distance
  | ifIcmpne (distance : Int16) (hdiffer : frame.topmostDiffer = true) :
      Jumps frame ⟨.ifIcmpne, .offset distance⟩ distance

namespace Machine

variable {machine : Machine} {depth : Nat} {instruction : Instruction} {frame : Frame}

/-- Two values are compared and taken off the stack, if there are two. -/
theorem branchUnlessEqual_cases (distance : Int16) (length : Nat) (frame : Frame) :
    (frame.topmostDiffer = false ∧
      ∃ after, branchUnlessEqual distance length frame = .error (.ofFault .stackUnderflow) after) ∨
    ∃ stack, branchUnlessEqual distance length frame =
      (if frame.topmostDiffer then branch distance else advance length) { frame with stack } := by
  obtain ⟨classFile, site, code, pc, ⟨topFirst⟩, locals, returnValue, returnsValue⟩ := frame
  rcases topFirst with _ | ⟨right, _ | ⟨left, below⟩⟩
  · exact .inl ⟨rfl, _, rfl⟩
  · exact .inl ⟨rfl, _, rfl⟩
  · refine .inr ⟨⟨below⟩, ?_⟩
    show (if left ≠ right then branch distance else advance length)
      ⟨classFile, site, code, pc, ⟨below⟩, locals, returnValue, returnsValue⟩ = _
    by_cases hequal : left = right <;> simp [topmostDiffer, hequal]

/-- A jump that is taken leads to its target, unless that is before the front of the code. -/
theorem execute_of_jumps (machine : Machine) (depth : Nat) {distance : Int16} (h : frame.Jumps instruction distance) :
    ∃ stack, machine.execute depth instruction frame =
      if (frame.pc : Int) + distance.toInt < 0 then
        .error (.ofFault (.branchOutside (frame.pc + distance.toInt))) { frame with stack }
      else
        .ok none { frame with stack, pc := ((frame.pc : Int) + distance.toInt).toNat } := by
  have hbranch {action : Action Unit} {stack : OperandStack}
      (haction : action frame = branch distance { frame with stack }) : execute.withoutCall action frame =
      if (frame.pc : Int) + distance.toInt < 0 then
        .error (.ofFault (.branchOutside (frame.pc + distance.toInt))) { frame with stack }
      else
        .ok none { frame with stack, pc := ((frame.pc : Int) + distance.toInt).toNat } := by
    rw [branch_eq] at haction
    dsimp only at haction
    unfold execute.withoutCall
    split at haction
    · rename_i hlt
      rw [bind_of_error haction, if_pos hlt]
    · rename_i hlt
      rw [bind_of_ok haction, if_neg hlt]
      rfl
  cases h with
  | goto => exact ⟨frame.stack, hbranch rfl⟩
  | ifIcmpne _ hdiffer =>
    obtain ⟨hequal, -⟩ | ⟨stack, heq⟩ := branchUnlessEqual_cases distance (Opcode.ifIcmpne.length) frame
    · rw [hdiffer] at hequal
      cases hequal
    · rw [if_pos hdiffer] at heq
      exact ⟨stack, hbranch heq⟩

/-- An instruction that was read and executed stays within the code or leads to its end, unless it jumps. -/
theorem pc_of_execute (hdecode : Instruction.decode frame.code.bytes frame.pc = .ok instruction) {call : Option Call}
    {after : Frame} (h : machine.execute depth instruction frame = .ok call after) :
    after.pc ≤ frame.code.bytes.size ∨
      ∃ distance, frame.Jumps instruction distance ∧ (after.pc : Int) = frame.pc + distance.toInt := by
  have hend := Instruction.end_le_size_of_decode hdecode
  obtain ⟨-, hmoves⟩ | ⟨index, rfl, -, dispatch, -, rfl⟩ := execute_eq_ok h
  · cases hmoves with
    | onward stack _ => exact .inl hend
    | ireturn => exact .inl (Nat.le_refl _)
    | voidReturn => exact .inl (Nat.le_refl _)
    | @jump stack distance hform hoperand htarget =>
      obtain ⟨opcode, operand⟩ := instruction
      cases hoperand
      cases opcode with
      | goto => exact .inr ⟨distance, .goto distance, Int.toNat_of_nonneg htarget⟩
      | ifIcmpne =>
        by_cases hdiffer : frame.topmostDiffer = true
        · exact .inr ⟨distance, .ifIcmpne distance hdiffer, Int.toNat_of_nonneg htarget⟩
        · -- the values are equal, so the next instruction follows
          obtain ⟨_, middle, hbranch, hok⟩ := bind_eq_ok_iff.1 h
          cases hok
          have hplace := branchUnlessEqual_eq_ok hbranch
          rw [if_neg hdiffer] at hplace
          left
          omega
      | _ => cases hform
  · exact .inl hend

/-- A jump is refused for its target only if it is taken. -/
theorem jumps_of_branchOutside {failure : Failure} {after : Frame} {target : Int}
    (h : machine.execute depth instruction frame = .error failure after)
    (hfault : failure.fault = .branchOutside target) :
    ∃ distance, frame.Jumps instruction distance := by
  obtain ⟨opcode, operand⟩ := instruction
  rcases execute_error h with ⟨fault, rfl, hraises⟩ | ⟨_, _, _, _, _, _, rfl⟩
  case inr => cases hfault
  cases hfault
  cases opcode with
  | goto =>
    cases operand with
    | offset distance => exact ⟨distance, .goto distance⟩
    | _ => cases h
  | ifIcmpne =>
    cases operand with
    | offset distance =>
      refine ⟨distance, .ifIcmpne distance ?_⟩
      replace h : execute.withoutCall (branchUnlessEqual distance Opcode.ifIcmpne.length) frame = _ := h
      unfold execute.withoutCall at h
      obtain ⟨-, middle, heq⟩ | ⟨stack, heq⟩ := branchUnlessEqual_cases distance Opcode.ifIcmpne.length frame
      · rw [bind_of_error heq] at h
        cases h
      · rcases hdiffer : frame.topmostDiffer with _ | _
        · rw [hdiffer, if_neg Bool.false_ne_true] at heq
          rw [bind_of_ok heq] at h
          cases h
        · rfl
    | _ => cases h
  | _ => exact hraises.elim

/-! ## Operands -/

/-- No instruction whose operand goes with its opcode is refused for its operand. -/
theorem sparesOperand_of_execute (hfits : instruction.fits = true) {failure : Failure} {after : Frame}
    (h : machine.execute depth instruction frame = .error failure after) : failure.fault.SparesOperand := by
  rcases hcall : instruction.callIndex? with _ | index
  · have hfails : FailsOnly Fault.SparesOperand (machine.execute depth instruction) :=
      failsOnly_execute_of machine depth hcall (fun _ _ hspares => hspares) (by rw [hfits]; nofun)
    obtain ⟨fault, rfl, hspares⟩ := hfails frame failure after h
    exact hspares
  · rw [execute_of_call machine depth hcall] at h
    split at h
    · cases h
    · rename_i hfailed
      cases h
      rcases call_error hfailed with ⟨fault, rfl, -, hspares⟩ | ⟨_, _, _, _, rfl⟩
      · exact hspares
      · exact nofun

/-- The operand of an instruction that was read goes with its opcode. -/
theorem fits_of_decode {code : Array UInt8} {pc : Nat} (h : Instruction.decode code pc = .ok instruction) :
    instruction.fits = true := by
  obtain ⟨bytes, hbytes, -⟩ := Instruction.decode_eq_ok_iff.1 h
  rw [← Instruction.isSome_encode?, hbytes]
  rfl

/-! ## Places in the code -/

/-- Code that was read from a file has fewer bytes than four bytes can count. -/
theorem size_of_code {method : Member} {pool : Pool} {code : Code} (h : method.code pool = .ok code) :
    code.bytes.size < 4294967296 := by
  unfold Member.code at h
  rcases hattr : method.methodAttribute pool "Code" with error | attr
  · rw [hattr] at h
    cases h
  · rw [hattr] at h
    replace h : (Code.decode attr.info).mapError CodeError.malformed = .ok code := h
    rcases hdecode : Code.decode attr.info with error | found
    · rw [hdecode] at h
      cases h
    · rw [hdecode] at h
      cases h
      exact (Code.decode_eq_ok_iff.1 hdecode).1.1

/-- Frames, the latest call first, of which those that wait stand within their code or at its end, and none is behind
the end by as much as the longest jump. -/
structure WithinCode (frames : List Frame) : Prop where
  sized : ∀ frame ∈ frames, frame.code.bytes.size < 4294967296
  near : ∀ frame ∈ frames, frame.pc < frame.code.bytes.size + 32768
  waiting : ∀ frame ∈ frames.tail, frame.pc ≤ frame.code.bytes.size

/-- An instruction that was read leads its frame behind the end of the code by less than the longest jump. -/
theorem Moves.pc_lt {after : Frame} (hdecode : Instruction.decode frame.code.bytes frame.pc = .ok instruction)
    (h : Moves instruction frame after) : after.pc < after.code.bytes.size + 32768 := by
  have hend := Instruction.end_le_size_of_decode hdecode
  have hpc := Instruction.lt_size_of_decode hdecode
  cases h with
  | onward stack _ => dsimp only; omega
  | ireturn => dsimp only; omega
  | voidReturn => dsimp only; omega
  | @jump stack distance _ _ htarget =>
    have hdistance := distance.toInt_lt
    dsimp only
    omega

/-- A round keeps the frames within their code. -/
theorem FrameStep.withinCode {frames next : List Frame} (h : FrameStep machine frames next)
    (hwithin : WithinCode frames) : WithinCode next := by
  have hsized : ∀ frame ∈ next, frame.code.bytes.size < 4294967296 :=
    h.forall_mem (fun hsame hsize => by rw [hsame.code]; exact hsize) (fun dispatch => size_of_code dispatch.code_eq)
      hwithin.sized
  cases h with
  | @back done caller below _ =>
    obtain ⟨stack, hhanded⟩ := caller.handed_eq done
    rw [hhanded] at hsized ⊢
    obtain ⟨-, -, hbelow⟩ := by simpa only [List.forall_mem_cons] using hwithin.near
    obtain ⟨hcaller, hwaiting⟩ := List.forall_mem_cons.1 hwithin.waiting
    refine ⟨hsized, List.forall_mem_cons.2 ⟨?_, hbelow⟩, hwaiting⟩
    dsimp only
    omega
  | step instruction _ hdecode hmoves =>
    exact ⟨hsized, List.forall_mem_cons.2 ⟨hmoves.pc_lt hdecode, (List.forall_mem_cons.1 hwithin.near).2⟩,
      hwithin.waiting⟩
  | @call frame below index _ hdecode _ dispatch =>
    -- the caller waits behind the call, which ends within its code
    have hend : dispatch.waiting.pc ≤ dispatch.waiting.code.bytes.size := Instruction.end_le_size_of_decode hdecode
    refine ⟨hsized, List.forall_mem_cons.2 ⟨?_, List.forall_mem_cons.2 ⟨?_, (List.forall_mem_cons.1 hwithin.near).2⟩⟩,
      List.forall_mem_cons.2 ⟨hend, hwithin.waiting⟩⟩
    · show 0 < _
      omega
    · omega

theorem Rounds.withinCode {clock : Nat → Nat} {count : Nat} {first last : State} {notices : List Notice}
    (h : Rounds machine clock count first notices last) (hwithin : WithinCode first.stack.frames) :
    WithinCode last.stack.frames :=
  (h.preserves (fun state => WithinCode state.stack.frames) (fun _ => True)
    (fun hinv hround => ⟨(round_frames hround).withinCode hinv, fun _ _ => trivial⟩) hwithin).1

/-- A method that was entered stands at the front of its code. -/
theorem withinCode_of_enter {classFile : ClassFile} {method : Member} {arguments : List Int32} {returnsValue : Bool}
    (h : enter classFile method arguments returnsValue = .ok frame) :
    WithinCode (State.ofEntry frame).stack.frames := by
  obtain ⟨code, hcode, rfl⟩ := enter_eq_ok h
  refine ⟨List.forall_mem_singleton.2 (size_of_code hcode), List.forall_mem_singleton.2 ?_, nofun⟩
  show 0 < _
  omega

/-! ## Safety -/

/-- From this place on, where an instruction ends and where a jump leads is computed in 64 bits without loss. -/
structure ExactFrom (pc : Nat) : Prop where
  advance : ∀ opcode : Opcode, (UInt64.ofNat pc + UInt64.ofNat opcode.length).toNat = pc + opcode.length
  jump : ∀ distance : Int16, (Int64.ofNat pc + distance.toInt64).toInt = pc + distance.toInt

theorem exactFrom_of_lt {pc : Nat} (h : pc < 4294967296) : ExactFrom pc where
  advance opcode := by
    have hlength : opcode.length ≤ 3 := by cases opcode <;> decide
    rw [UInt64.toNat_add, UInt64.toNat_ofNat', UInt64.toNat_ofNat']
    omega
  jump distance := by
    have hlow := distance.le_toInt
    have hhigh := distance.toInt_lt
    rw [Int64.toInt_add, Int64.toInt_ofNat_of_lt (by omega), Int16.toInt_toInt64]
    exact Int.bmod_eq_of_le (by omega) (by omega)

/-- What executing an instruction in a frame can come to. -/
structure SafeStep (machine : Machine) (depth : Nat) (frame : Frame) (instruction : Instruction) : Prop where
  /-- The operand goes with the opcode, and no failure blames it. -/
  fits : instruction.fits = true
  operand : ∀ failure after, machine.execute depth instruction frame = .error failure after →
    failure.fault.SparesOperand
  onward : ∀ call after, machine.execute depth instruction frame = .ok call after →
    (¬ ∃ distance, frame.Jumps instruction distance) → after.pc ≤ frame.code.bytes.size
  jump : ∀ distance, frame.Jumps instruction distance → 0 ≤ (frame.pc : Int) + distance.toInt →
    ∃ after, machine.execute depth instruction frame = .ok none after ∧ (after.pc : Int) = frame.pc + distance.toInt
  outside_iff : ∀ target, (∃ failure after, machine.execute depth instruction frame = .error failure after ∧
      failure.fault = .branchOutside target) ↔
    ∃ distance, frame.Jumps instruction distance ∧ (frame.pc : Int) + distance.toInt < 0 ∧
      target = frame.pc + distance.toInt
  /-- A call takes its arguments from within the stack, and leaves what is below them. -/
  arguments : ∀ index target, instruction = ⟨.invokestatic, .index index⟩ →
    machine.resolve frame.classFile index = .ok target → depth < machine.limits.callDepth →
    let values := frame.stack.values
    let arity := target.descriptor.arity
    (values.length < arity ∧ machine.execute depth instruction frame = .error (.ofFault .stackUnderflow) frame) ∨
      (arity ≤ values.length ∧ frame.stack.splitTop? arity =
          some (values.drop (values.length - arity), .ofValues (values.take (values.length - arity))) ∧
        ∀ call after, machine.execute depth instruction frame = .ok (some call) after →
          call.callee.locals.take arity = values.drop (values.length - arity) ∧
            after.stack = .ofValues (values.take (values.length - arity)))

/-- What is safe about the places of all frames in a state, and about its next round. -/
structure SafeAt (machine : Machine) (elapsed : Nat) (state : State) : Prop where
  waiting : ∀ caller ∈ state.stack.callers, caller.pc ≤ caller.code.bytes.size
  near : state.stack.top.pc < state.stack.top.code.bytes.size + 32768
  /-- At the end of the code or behind it nothing is read, and the frame is done. -/
  done : state.stack.top.code.bytes.size ≤ state.stack.top.pc →
    machine.round elapsed state = state.complete ∧ eventsOf state.complete.notices = []
  exact : state.stack.top.pc < state.stack.top.code.bytes.size → ExactFrom state.stack.top.pc
  step : ∀ instruction, Instruction.decode state.stack.top.code.bytes state.stack.top.pc = .ok instruction →
    state.stack.top.pc < state.stack.top.code.bytes.size ∧
      machine.SafeStep state.stack.depth state.stack.top instruction
  /-- Only a jump that is taken leads behind the end of the code. -/
  overshoot : ∀ next notices, machine.round elapsed state = .next next notices →
    next.stack.top.code.bytes.size < next.stack.top.pc →
    ∃ instruction distance, Instruction.decode state.stack.top.code.bytes state.stack.top.pc = .ok instruction ∧
      state.stack.top.Jumps instruction distance ∧ SameActivation state.stack.top next.stack.top ∧
      (next.stack.top.pc : Int) = state.stack.top.pc + distance.toInt

/-- The topmost values are a slice of the stack, if there are so many. -/
theorem splitTop?_of_le {stack : OperandStack} {count : Nat} (h : count ≤ stack.values.length) :
    stack.splitTop? count = some (stack.values.drop (stack.values.length - count),
      .ofValues (stack.values.take (stack.values.length - count))) := by
  rcases hsplit : stack.splitTop? count with _ | ⟨taken, rest⟩
  · exact absurd h (Nat.not_le.2 (OperandStack.splitTop?_eq_none_iff.1 hsplit))
  · obtain ⟨hvalues, hlength⟩ := OperandStack.values_of_splitTop? hsplit
    have hrest : stack.values.length - count = rest.values.length := by
      rw [hvalues, List.length_append, hlength, Nat.add_sub_cancel]
    rw [hrest, hvalues, List.drop_left, List.take_left, OperandStack.ofValues_values]

/-- A call that is made hands over the topmost values and leaves those below. -/
theorem arguments_of_call {index : UInt16} {target : Target} {call : Call} {after : Frame}
    (hresolve : machine.resolve frame.classFile index = .ok target)
    (h : machine.execute depth ⟨.invokestatic, .index index⟩ frame = .ok (some call) after) :
    let values := frame.stack.values
    let arity := target.descriptor.arity
    call.callee.locals.take arity = values.drop (values.length - arity) ∧
      after.stack = .ofValues (values.take (values.length - arity)) := by
  intro values arity
  obtain ⟨hnone, -⟩ | ⟨_, hcall, -, dispatch, hmade, rfl⟩ := execute_eq_ok h
  · cases hnone
  cases hcall
  cases hmade
  have htarget : dispatch.target = target := Except.ok.inj (dispatch.resolve_eq.symm.trans hresolve)
  have hlength : dispatch.arguments.length = arity := by rw [dispatch.length_arguments, htarget]
  have hvalues : values = dispatch.below ++ dispatch.arguments := dispatch.values_eq
  have hbelow : values.length - arity = dispatch.below.length := by
    rw [hvalues, List.length_append, hlength, Nat.add_sub_cancel]
  rw [hbelow, hvalues, List.drop_left, List.take_left]
  exact ⟨List.take_left' hlength, rfl⟩

theorem safeStep_of_decode (depth : Nat)
    (hdecode : Instruction.decode frame.code.bytes frame.pc = .ok instruction) :
    machine.SafeStep depth frame instruction where
  fits := fits_of_decode hdecode
  operand _ _ := sparesOperand_of_execute (fits_of_decode hdecode)
  onward _ _ h hnot := (pc_of_execute hdecode h).resolve_right fun ⟨distance, hjumps, _⟩ => hnot ⟨distance, hjumps⟩
  jump distance hjumps htarget := by
    obtain ⟨stack, heq⟩ := execute_of_jumps machine depth hjumps
    rw [if_neg (Int.not_lt.2 htarget)] at heq
    exact ⟨_, heq, Int.toNat_of_nonneg htarget⟩
  outside_iff target := by
    constructor
    · rintro ⟨failure, after, h, hfault⟩
      obtain ⟨distance, hjumps⟩ := jumps_of_branchOutside h hfault
      obtain ⟨stack, heq⟩ := execute_of_jumps machine depth hjumps
      rw [h] at heq
      split at heq
      · rename_i hlt
        cases heq
        cases hfault
        exact ⟨distance, hjumps, hlt, rfl⟩
      · cases heq
    · rintro ⟨distance, hjumps, hlt, rfl⟩
      obtain ⟨stack, heq⟩ := execute_of_jumps machine depth hjumps
      rw [if_pos hlt] at heq
      exact ⟨_, _, heq, rfl⟩
  arguments index target hcall hresolve hdepth := by
    rcases Nat.lt_or_ge frame.stack.values.length target.descriptor.arity with hfew | henough
    · refine .inl ⟨hfew, ?_⟩
      subst hcall
      rw [execute_of_call machine depth rfl, call_eq, hresolve]
      dsimp only
      rw [if_neg (Nat.not_le.2 hdepth), OperandStack.splitTop?_eq_none_iff.2 hfew]
    · subst hcall
      exact .inr ⟨henough, splitTop?_of_le henough, fun _ _ => arguments_of_call hresolve⟩

/-- A frame on top that stands behind the end of its code has just jumped there. -/
theorem jumps_of_overshoot {elapsed : Nat} {state next : State} {notices : List Notice}
    (hwaiting : ∀ caller ∈ state.stack.callers, caller.pc ≤ caller.code.bytes.size)
    (h : machine.round elapsed state = .next next notices)
    (hbehind : next.stack.top.code.bytes.size < next.stack.top.pc) :
    ∃ instruction distance, Instruction.decode state.stack.top.code.bytes state.stack.top.pc = .ok instruction ∧
      state.stack.top.Jumps instruction distance ∧ SameActivation state.stack.top next.stack.top ∧
      (next.stack.top.pc : Int) = state.stack.top.pc + distance.toInt := by
  have hcase := round_cases machine elapsed state
  rw [h] at hcase
  generalize hresult : Round.next next notices = result at hcase
  cases hcase with
  | finish => cases hresult
  | limit => cases hresult
  | undecodable => cases hresult
  | complete callers _ hpop =>
    cases hresult
    obtain ⟨-, hcallers⟩ := List.cons.inj (CallStack.frames_of_pop? hpop)
    obtain ⟨htop, -⟩ := List.cons.inj (CallStack.frames_resume callers state.stack.top)
    obtain ⟨stack, hhanded⟩ := callers.top.handed_eq state.stack.top
    have hcaller := hwaiting callers.top (by rw [hcallers]; exact List.mem_cons_self)
    dsimp only at hbehind
    rw [htop, hhanded] at hbehind
    exact absurd hbehind (Nat.not_lt.2 hcaller)
  | perform instruction _ _ hdecode =>
    unfold perform at hresult
    rcases hexecute : machine.execute state.stack.depth instruction state.stack.top with
      ⟨_ | call, after⟩ | ⟨failure, after⟩
    · rw [hexecute] at hresult
      cases hresult
      obtain ⟨-, hmoves⟩ | ⟨_, _, _, _, hcall, -⟩ := execute_eq_ok hexecute
      · have hsame := hmoves.sameActivation
        replace hbehind : after.code.bytes.size < after.pc := hbehind
        rw [hsame.code] at hbehind
        obtain hwithin | ⟨distance, hjumps, hpc⟩ := pc_of_execute hdecode hexecute
        · exact absurd hbehind (Nat.not_lt.2 hwithin)
        · exact ⟨instruction, distance, hdecode, hjumps, hsame, hpc⟩
      · cases hcall
    · -- a method that is called starts at the front of its code
      rw [hexecute] at hresult
      cases hresult
      obtain ⟨hnone, -⟩ | ⟨_, _, _, dispatch, hcall, -⟩ := execute_eq_ok hexecute
      · cases hnone
      · cases hcall
        exact absurd hbehind (Nat.not_lt_zero _)
    · rw [hexecute] at hresult
      cases hresult

theorem WithinCode.safeAt {state : State} (h : WithinCode state.stack.frames) (elapsed : Nat) :
    machine.SafeAt elapsed state where
  waiting := h.waiting
  near := h.near _ List.mem_cons_self
  done hend := by
    have hdone : state.stack.top.isDone = true := decide_eq_true hend
    refine ⟨?_, ?_⟩
    · unfold round
      dsimp only
      rw [if_pos hdone]
    · unfold State.complete
      dsimp only
      split <;> rfl
  exact hpc := exactFrom_of_lt (Nat.lt_trans hpc (h.sized _ List.mem_cons_self))
  step _ hdecode := ⟨Instruction.lt_size_of_decode hdecode, safeStep_of_decode _ hdecode⟩
  overshoot _ _ := jumps_of_overshoot h.waiting

/-- No round ends a run for an operand. -/
theorem sparesOperand_of_round {elapsed : Nat} {state : State} {halt : Halt} {notices : List Notice}
    {failure : Failure} (h : machine.round elapsed state = .halt halt notices)
    (hfails : halt.outcome = .error failure) : failure.fault.SparesOperand := by
  have hcase := round_cases machine elapsed state
  rw [h] at hcase
  generalize hresult : Round.halt halt notices = result at hcase
  cases hcase with
  | finish =>
    cases hresult
    cases hfails
  | complete => cases hresult
  | limit fault _ hcheck =>
    cases hresult
    cases hfails
    obtain ⟨limit, rfl⟩ | rfl := check_fault_cases hcheck
    · exact nofun
    · exact nofun
  | undecodable =>
    cases hresult
    cases hfails
    exact nofun
  | perform instruction _ _ hdecode =>
    unfold perform at hresult
    split at hresult
    · rename_i hexecute
      cases hresult
      cases hfails
      have hspares := sparesOperand_of_execute (fits_of_decode hdecode) hexecute
      exact hspares
    · cases hresult
    · cases hresult

/-- Whatever the code of the classes is, every state of a run is safe, wherever the run is stopped, and no run ends
because of an operand. -/
theorem places_safe {σ : Type} (observer : Observer σ) (clock : Nat → Nat) (machine : Machine) (classFile : ClassFile)
    (method : Member) (arguments : List Int32) (seen : σ) (fuel : Nat) :
    let stopped := (Engine.stopping observer clock fuel).invoke machine classFile method arguments seen
    (∀ state final, stopped = .error (state, final) → machine.SafeAt (clock state.executed) state) ∧
      ∀ halt final failure, stopped = .ok (halt, final) → halt.outcome = .error failure →
        failure.fault.SparesOperand := by
  intro stopped
  have hcase : StoppedCase machine observer clock fuel classFile method arguments seen stopped := stopping_cases ..
  refine ⟨fun state final hstopped => ?_, fun halt final failure hstopped hfails => ?_⟩
  · rw [hstopped] at hcase
    cases hcase with
    | paused henter hrounds => exact (hrounds.withinCode (withinCode_of_enter henter)).safeAt _
  · rw [hstopped] at hcase
    cases hcase with
    | unentered henter =>
      cases hfails
      obtain ⟨error, -, rfl⟩ := enter_error henter
      exact nofun
    | finished _ _ hhalts =>
      obtain ⟨_, _, _, _, -, -, -, hround⟩ := hhalts.last_round
      exact sparesOperand_of_round hround hfails

/-- A method that jumps by the distance of the two bytes, at the front of its code of three bytes. -/
def jumpingMethod (high low : UInt8) : Member :=
  ⟨8, 3, 4, [⟨8, [0, 1, 0, 0, 0, 0, 0, 3, 0xa7, high, low, 0, 0, 0, 0]⟩]⟩

/-- A jump by 100 bytes leads behind the end of the code, and the method is done. One by -1 leads before its front. -/
theorem places_safe_jumpingMethod :
    let run (high low : UInt8) (fuel : Nat) := (Engine.stopping .silent (fun _ => 0) fuel).invoke callingMachine
      callingClass (jumpingMethod high low) [] ()
    (∃ state, run 0 100 1 = .error (state, ()) ∧ state.stack.top.code.bytes.size = 3 ∧ state.stack.top.pc = 100 ∧
      callingMachine.round 0 state = state.complete) ∧
    ∃ state failure after, run 0xff 0xff 0 = .error (state, ()) ∧
      callingMachine.execute state.stack.depth ⟨.goto, .offset (-1)⟩ state.stack.top = .error failure after ∧
      failure.fault = .branchOutside (-1) := by
  intro run
  refine ⟨?_, ?_⟩
  · obtain ⟨state, hrun, hsize, hpc⟩ : ∃ state, run 0 100 1 = .error (state, ()) ∧
        state.stack.top.code.bytes.size = 3 ∧ state.stack.top.pc = 100 :=
      ⟨_, rfl, rfl, rfl⟩
    have hsafe := (places_safe .silent (fun _ => 0) callingMachine callingClass (jumpingMethod 0 100) [] () 1).1 state
      () hrun
    exact ⟨state, hrun, hsize, hpc, (hsafe.done (by omega)).1⟩
  · obtain ⟨state, hrun, hpc, hdecode⟩ : ∃ state, run 0xff 0xff 0 = .error (state, ()) ∧ state.stack.top.pc = 0 ∧
        Instruction.decode state.stack.top.code.bytes state.stack.top.pc = .ok ⟨.goto, .offset (-1)⟩ :=
      ⟨_, rfl, rfl, rfl⟩
    have hsafe := (places_safe .silent (fun _ => 0) callingMachine callingClass (jumpingMethod 0xff 0xff) [] () 0).1
      state () hrun
    have houtside : ∃ distance, state.stack.top.Jumps ⟨.goto, .offset (-1)⟩ distance ∧
        (state.stack.top.pc : Int) + distance.toInt < 0 ∧ -1 = (state.stack.top.pc : Int) + distance.toInt := by
      rw [hpc]
      exact ⟨-1, .goto (-1), by decide, by decide⟩
    obtain ⟨failure, after, hexecute, hfault⟩ := ((hsafe.step _ hdecode).2.outside_iff (-1)).2 houtside
    exact ⟨state, failure, after, hrun, hexecute, hfault⟩

end Machine

end ClassMachine
