/-
The places of failures. A frame that is not done stands at a byte of its code, and whatever fails in its round is placed
there: the limits, the reading of the instruction and the instruction itself (`round_failure`). The one other place is
the start of a method that has no code, be it the method that the run started with or one that an `invokestatic` leads
to. Most faults arise at the bytes of a few instructions only, which `Fault.ArisesAt` lists.

The frames of a run over classes that were read are of methods of these classes, with their names and their code
(`Rounds.allRun`), so the names of a place are those of the method that stands there.
-/
import ClassMachine.Proofs.Instruction
import ClassMachine.Proofs.Machine.Isolation
import ClassMachine.Proofs.Session.Sites

namespace ClassMachine

/-! ## Bytes and faults -/

/-- The fault can arise at an instruction that starts with this byte. That a method has no code is told at the start of
the method and not at an instruction. -/
def Fault.ArisesAt (byte : UInt8) : Fault → Prop
  | unresolved _ | noClass _ | noMethod _ | badDescriptor _ | callDepthLimit _ => byte = 0xb8
  | branchOutside _ => byte = 0xa7 ∨ byte = 0xa0
  | noLocal index size => byte = 0x1a ∧ index = 0 ∧ size = 0
  | stackUnderflow => byte ∈ [0x57, 0x64, 0x68, 0xa0, 0xac, 0xb8]
  | noInstruction (.unsupported found) => byte = found
  | noInstruction .truncated | badOperand .. | instructionLimit _ | deadline => True
  | noCode _ => False

/-- What an instruction raises arises at its byte. -/
theorem Opcode.Raises.arisesAt {opcode : Opcode} {fault : Fault} (h : opcode.Raises fault) :
    fault.ArisesAt opcode.byte := by
  cases opcode <;> cases fault <;> simp_all [Opcode.Raises, Fault.ArisesAt, Opcode.byte]

theorem Fault.arisesAt_of_decode {code : Array UInt8} {pc : Nat} {byte : UInt8} {error : Instruction.DecodeError}
    (hbyte : code[pc]? = some byte) (h : Instruction.decode code pc = .error error) :
    (Fault.noInstruction error).ArisesAt byte := by
  rcases Instruction.decode_error hbyte h with rfl | rfl
  · exact rfl
  · trivial

/-- The limits are looked at whatever the instruction is. -/
theorem Fault.arisesAt_of_check {limits : Limits} {executed elapsed : Nat} {fault : Fault}
    (h : limits.check executed elapsed = .error fault) (byte : UInt8) : fault.ArisesAt byte := by
  rcases Machine.check_fault_cases h with ⟨limit, rfl⟩ | rfl
  · trivial
  · trivial

theorem Failure.locate_locate (failure : Failure) (location other : Location) :
    (failure.locate location).locate other = failure.locate location := rfl

/-! ## Frames and their methods -/

namespace Frame

/-- The frame runs this method of its class, under the names of the method and with its code. -/
structure Runs (frame : Frame) (method : Member) : Prop where
  mem : method ∈ frame.classFile.methods
  names : frame.site.Names frame.classFile method
  code_eq : method.code frame.classFile.pool = .ok frame.code

theorem SameActivation.runs {before after : Frame} (h : SameActivation before after) {method : Member}
    (hruns : before.Runs method) : after.Runs method := by
  obtain ⟨hmem, hnames, hcode⟩ := hruns
  refine ⟨?_, ?_, ?_⟩
  · rw [h.classFile]
    exact hmem
  · rw [h.site, h.classFile]
    exact hnames
  · rw [h.classFile, h.code]
    exact hcode

theorem runs_of_enter {classFile : ClassFile} {method : Member} {arguments : List Int32} {returnsValue : Bool}
    {frame : Frame} (hlinked : classFile.Linked) (hmethod : method ∈ classFile.methods)
    (h : enter classFile method arguments returnsValue = .ok frame) : frame.Runs method := by
  obtain ⟨code, hcode, rfl⟩ := enter_eq_ok h
  exact ⟨hmethod, hlinked.names hmethod, hcode⟩

theorem location_eq {frame : Frame} (h : frame.pc < frame.code.bytes.size) :
    frame.location = { site := frame.site, pc := frame.pc, opcode := some frame.code.bytes[frame.pc] } := by
  unfold location
  rw [Array.getElem?_eq_getElem h]

end Frame

namespace Machine

open ClassMachine.Frame

variable {machine : Machine} {clock : Nat → Nat}

section

variable (hclasses : ∀ name classFile, machine.classes.find? name = some classFile → classFile.Linked)

include hclasses

theorem Dispatch.callee_runs {caller : Frame} {index : UInt16} (dispatch : Dispatch machine caller index) :
    dispatch.callee.Runs dispatch.target.method := by
  obtain ⟨-, hfind, hmethod, -⟩ := resolve_eq_ok dispatch.resolve_eq
  have hmem := List.mem_of_find?_eq_some hmethod
  exact ⟨hmem, (hclasses _ _ hfind).names hmem, dispatch.code_eq⟩

/-- A round keeps every frame at its method, and a frame that a call adds runs the method called. -/
theorem FrameStep.allRun {frames next : List Frame} (h : FrameStep machine frames next)
    (hall : ∀ frame ∈ frames, ∃ method, frame.Runs method) : ∀ frame ∈ next, ∃ method, frame.Runs method := by
  refine h.forall_mem ?_ (fun dispatch => ⟨_, dispatch.callee_runs hclasses⟩) hall
  rintro before after hsame ⟨method, hruns⟩
  exact ⟨method, hsame.runs hruns⟩

theorem Rounds.allRun {count : Nat} {first last : State} {notices : List Notice}
    (h : Rounds machine clock count first notices last)
    (hall : ∀ frame ∈ first.stack.frames, ∃ method, frame.Runs method) :
    ∀ frame ∈ last.stack.frames, ∃ method, frame.Runs method := by
  refine (Rounds.preserves (fun state => ∀ frame ∈ state.stack.frames, ∃ method, frame.Runs method) (fun _ => True)
    ?_ h hall).1
  intro state next notices hstate hround
  exact ⟨(round_frames hround).allRun hclasses hstate, fun _ _ => trivial⟩

end

/-! ## Rounds that fail -/

/-- An instruction that fails does so where it stands, with a fault of its opcode, or at the start of a method without
code that it calls. -/
theorem perform_failure {state : State} {instruction : Instruction} {halt : Halt} {notices : List Notice}
    {failure : Failure} (h : machine.perform state instruction = .halt halt notices)
    (hfails : halt.outcome = .error failure) :
    (failure.location = some state.stack.top.location ∧ instruction.opcode.Raises failure.fault) ∨
      ∃ index, instruction = ⟨.invokestatic, .index index⟩ ∧
        machine.Uncallable state.stack.top.classFile index failure := by
  unfold perform at h
  rcases hexecute : machine.execute state.stack.depth instruction state.stack.top with
    ⟨_ | call, after⟩ | ⟨failed, after⟩
  · rw [hexecute] at h; cases h
  · rw [hexecute] at h; cases h
  · rw [hexecute] at h
    cases h
    cases hfails
    rcases execute_error hexecute with ⟨fault, rfl, hraises⟩ | ⟨index, hcall, target, error, hresolve, hcode, rfl⟩
    · exact .inl ⟨rfl, hraises⟩
    · -- the place that the call has told stays
      exact .inr ⟨index, Instruction.eq_of_callIndex? hcall, target, error, hresolve, hcode,
        Failure.locate_locate _ _ _⟩

/-- A round fails at the byte that the top frame stands at, with a fault that can arise there, or at the start of a
method without code that the frame calls. -/
theorem round_failure {elapsed : Nat} {state : State} {halt : Halt} {notices : List Notice} {failure : Failure}
    (h : machine.round elapsed state = .halt halt notices) (hfails : halt.outcome = .error failure) :
    ∃ hpc : state.stack.top.pc < state.stack.top.code.bytes.size,
      (failure.location = some state.stack.top.location ∧
        failure.fault.ArisesAt (state.stack.top.code.bytes[state.stack.top.pc])) ∨
      ∃ index, Instruction.decode state.stack.top.code.bytes state.stack.top.pc =
          .ok ⟨.invokestatic, .index index⟩ ∧
        machine.Uncallable state.stack.top.classFile index failure := by
  have hcase := round_cases machine elapsed state
  rw [h] at hcase
  generalize hresult : Round.halt halt notices = result at hcase
  cases hcase with
  | finish =>
    cases hresult
    cases hfails
  | complete => cases hresult
  | limit fault hdone hcheck =>
    cases hresult
    cases hfails
    exact ⟨lt_size_of_not_isDone hdone, .inl ⟨rfl, Fault.arisesAt_of_check hcheck _⟩⟩
  | undecodable error hdone _ hdecode =>
    cases hresult
    cases hfails
    have hpc := lt_size_of_not_isDone hdone
    exact ⟨hpc, .inl ⟨rfl, Fault.arisesAt_of_decode (Array.getElem?_eq_getElem hpc) hdecode⟩⟩
  | perform instruction hdone _ hdecode =>
    have hpc := lt_size_of_not_isDone hdone
    refine ⟨hpc, ?_⟩
    rcases perform_failure hresult.symm hfails with ⟨hlocation, hraises⟩ | ⟨index, rfl, huncallable⟩
    · have hbyte : state.stack.top.code.bytes[state.stack.top.pc] = instruction.opcode.byte :=
        Array.getElem_eq_iff.2 (Instruction.byte_of_decode hdecode)
      rw [hbyte]
      exact .inl ⟨hlocation, hraises.arisesAt⟩
    · exact .inr ⟨index, hdecode, huncallable⟩

/-! ## Runs that fail -/

/-- The run of the method comes to this state, and the next round ends it so. -/
def EndsAfter (machine : Machine) (clock : Nat → Nat) (classFile : ClassFile) (method : Member)
    (arguments : List Int32) (last : State) (halt : Halt) : Prop :=
  ∃ entry count told final, enter classFile method arguments true = .ok entry ∧
    Rounds machine clock count (.ofEntry entry) told last ∧
    machine.round (clock last.executed) last = .halt halt final

/-- Where a run that ends so fails with a fault. -/
inductive FailsAt (machine : Machine) (clock : Nat → Nat) (classFile : ClassFile) (method : Member)
    (arguments : List Int32) (halt : Halt) : Fault → Location → Prop
  /-- At its start, as the method has no code. -/
  | unentered {error : CodeError} {site : Site} (hcode : method.code classFile.pool = .error error)
      (hsite : site.Names classFile method) :
      FailsAt machine clock classFile method arguments halt (.noCode error) { site, pc := 0, opcode := none }
  /-- At the start of a method that the top frame calls, as that method has no code. -/
  | uncallable {last : State} {index : UInt16} {target : Target} {error : CodeError} {site : Site}
      (hlast : EndsAfter machine clock classFile method arguments last halt)
      (hdecode : Instruction.decode last.stack.top.code.bytes last.stack.top.pc = .ok ⟨.invokestatic, .index index⟩)
      (hresolve : machine.resolve last.stack.top.classFile index = .ok target)
      (hcode : target.method.code target.classFile.pool = .error error)
      (hsite : site.Names target.classFile target.method) :
      FailsAt machine clock classFile method arguments halt (.noCode error) { site, pc := 0, opcode := none }
  /-- Where the top frame stands in the code of its method, at a byte where the fault can arise. The frame has the names
  of the method. -/
  | reached {last : State} {running : Member} {fault : Fault}
      (hlast : EndsAfter machine clock classFile method arguments last halt) (hruns : last.stack.top.Runs running)
      (hpc : last.stack.top.pc < last.stack.top.code.bytes.size)
      (hfault : fault.ArisesAt last.stack.top.code.bytes[last.stack.top.pc]) :
      FailsAt machine clock classFile method arguments halt fault
        { site := last.stack.top.site, pc := last.stack.top.pc,
          opcode := some last.stack.top.code.bytes[last.stack.top.pc] }

theorem MethodHalts.failsAt {classFile : ClassFile} {method : Member} {arguments : List Int32} {notices : List Notice}
    {halt : Halt} {failure : Failure}
    (hclasses : ∀ name classFile, machine.classes.find? name = some classFile → classFile.Linked)
    (hlinked : classFile.Linked) (hmethod : method ∈ classFile.methods)
    (h : MethodHalts machine clock classFile method arguments notices halt) (hfails : halt.outcome = .error failure) :
    ∃ location, failure.location = some location ∧
      FailsAt machine clock classFile method arguments halt failure.fault location := by
  cases h with
  | unentered henter =>
    cases hfails
    obtain ⟨error, hcode, rfl⟩ := enter_error henter
    exact ⟨_, rfl, .unentered hcode (hlinked.names hmethod)⟩
  | @entered entry _ _ _ henter hhalts =>
    obtain ⟨count, last, told, final, -, hrounds, -, hround⟩ := hhalts.last_round
    have hlast : EndsAfter machine clock classFile method arguments last halt :=
      ⟨entry, count, told, final, henter, hrounds, hround⟩
    have hentry : ∀ frame ∈ [entry], ∃ method, frame.Runs method :=
      List.forall_mem_singleton.2 ⟨method, runs_of_enter hlinked hmethod henter⟩
    obtain ⟨running, hruns⟩ := hrounds.allRun hclasses hentry _ List.mem_cons_self
    obtain ⟨hpc, ⟨hlocation, hfault⟩ | ⟨index, hdecode, target, error, hresolve, hcode, rfl⟩⟩ :=
      round_failure hround hfails
    · rw [location_eq hpc] at hlocation
      exact ⟨_, hlocation, .reached hlast hruns hpc hfault⟩
    · obtain ⟨-, hfind, hfound, -⟩ := resolve_eq_ok hresolve
      have hnames := (hclasses _ _ hfind).names (List.mem_of_find?_eq_some hfound)
      exact ⟨_, rfl, .uncallable hlast hdecode hresolve hcode hnames⟩

/-- A run over classes that were read, of a method of such a class, that ends in a failure says where. The place is the
start of the method whose code could not be had, the method of the run or the one that the last instruction calls; or
it is the byte at which the top frame stands in the code of its method, and then the fault is one that arises at such
bytes. The names of the place are those of the method. -/
theorem failure_located {σ : Type} (observer : Observer σ) (clock : Nat → Nat) (fuel : Nat) (machine : Machine)
    {bytes : List UInt8} {classFile : ClassFile} {method : Member} (arguments : List Int32) {seen final : σ}
    {halt : Halt} {failure : Failure} (hclasses : machine.classes.Parsed)
    (hparse : ClassFile.parse bytes = .ok classFile) (hmethod : method ∈ classFile.methods)
    (hrun : (Engine.bounded observer clock fuel).invoke machine classFile method arguments seen = some (halt, final))
    (hfails : halt.outcome = .error failure) :
    ∃ location, failure.location = some location ∧
      FailsAt machine clock classFile method arguments halt failure.fault location := by
  obtain ⟨notices, hhalts, -⟩ := (invoke_bounded_iff ..).1 ⟨fuel, hrun⟩
  have hlinked : ∀ name found, machine.classes.find? name = some found → found.Linked :=
    fun name found hfind => (hclasses.find? hfind).2
  exact hhalts.failsAt hlinked (ClassFile.linked_of_parse hparse) hmethod hfails

/-- With one frame at a time the method `g` of class `A` fails at its call, the first instruction. -/
theorem failure_located_callingMethod :
    let machine : Machine := { classes := callingMachine.classes, limits := { callDepth := 1 } }
    machine.classes.Parsed ∧
    ∃ halt failure, (Engine.bounded .silent (fun _ => 0) 1).invoke machine callingClass callingMethod [] () =
        some (halt, ()) ∧
      halt.outcome = .error failure ∧ failure.fault = .callDepthLimit 1 ∧
      FailsAt machine (fun _ => 0) callingClass callingMethod [] halt (.callDepthLimit 1)
        { site := ⟨"A", "g", "()I"⟩, pc := 0, opcode := some 0xb8 } := by
  intro machine
  have hparse : ClassFile.parse (callingClass.encode 9) = .ok callingClass := rfl
  have hclasses : machine.classes.Parsed := List.forall_mem_singleton.2 ⟨_, hparse⟩
  obtain ⟨halt, failure, hrun, hfails, hfault, hlocation⟩ : ∃ halt failure,
      (Engine.bounded .silent (fun _ => 0) 1).invoke machine callingClass callingMethod [] () = some (halt, ()) ∧
      halt.outcome = .error failure ∧ failure.fault = .callDepthLimit 1 ∧
      failure.location = some { site := ⟨"A", "g", "()I"⟩, pc := 0, opcode := some 0xb8 } :=
    ⟨_, _, rfl, rfl, rfl, rfl⟩
  obtain ⟨location, hplace, hat⟩ := failure_located .silent (fun _ => 0) 1 machine [] hclasses hparse
    (by decide : callingMethod ∈ callingClass.methods) hrun hfails
  obtain rfl : _ = location := Option.some.inj (hlocation.symm.trans hplace)
  rw [hfault] at hat
  exact ⟨hclasses, halt, failure, hrun, hfails, hfault, hat⟩

end Machine

end ClassMachine
