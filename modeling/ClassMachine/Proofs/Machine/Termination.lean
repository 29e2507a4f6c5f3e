/-
Runs that end. Two things bound a run by themselves. One is the limit on instructions: a round that executes none takes
a frame away, and only instructions add frames, so there are at most two rounds for each instruction and one for the
first frame. The other is code that only jumps forward: a frame then has less code in front of it after every
instruction. A call starts a method at the front of its code, but one level deeper, and the depth is limited. So each
byte of code weighs as much as all that a method called there can do (`weight`), and every round makes the weight of
the code in front of all frames less (`FrameStep.potential_lt`).
-/
import ClassMachine.Proofs.Instruction
import ClassMachine.Proofs.Machine.Budget
import ClassMachine.Proofs.Machine.Isolation
import ClassMachine.Proofs.Machine.Watching

namespace ClassMachine

/-! ## Code that jumps forward -/

namespace Code

/-- Wherever in the code a jump can be read, it leads forward. Places that no instruction leads to count too. -/
def JumpsForward (code : Code) : Prop :=
  ∀ pc distance, Instruction.decode code.bytes pc = .ok ⟨.goto, .offset distance⟩ ∨
    Instruction.decode code.bytes pc = .ok ⟨.ifIcmpne, .offset distance⟩ → 0 < distance.toInt

/-- No jump that leads elsewhere than forward can be read at this place. -/
def jumpsForwardAt (code : Code) (pc : Nat) : Bool :=
  match Instruction.decode code.bytes pc with
  | .ok ⟨.goto, .offset distance⟩ | .ok ⟨.ifIcmpne, .offset distance⟩ => 0 < distance.toInt
  | _ => true

theorem jumpsForward_iff (code : Code) :
    code.JumpsForward ↔ ∀ pc < code.bytes.size, code.jumpsForwardAt pc = true := by
  constructor
  · intro h pc _
    unfold jumpsForwardAt
    split
    · rename_i distance hdecode
      simpa using h pc distance (.inl hdecode)
    · rename_i distance hdecode
      simpa using h pc distance (.inr hdecode)
    · rfl
  · intro h pc distance hdecode
    have hforward := h pc (hdecode.elim Instruction.lt_size_of_decode Instruction.lt_size_of_decode)
    unfold jumpsForwardAt at hforward
    rcases hdecode with hdecode | hdecode
    · simpa [hdecode] using hforward
    · simpa [hdecode] using hforward

instance (code : Code) : Decidable code.JumpsForward :=
  decidable_of_iff _ code.jumpsForward_iff.symm

end Code

/-- The code of all methods that have code. -/
def ClassTable.codes (classes : ClassTable) : List Code :=
  classes.rows.flatMap fun row => row.2.methods.filterMap fun method => (method.code row.2.pool).toOption

theorem ClassTable.mem_codes {classes : ClassTable} {row : String × ClassFile} {method : Member} {code : Code}
    (hrow : row ∈ classes.rows) (hmethod : method ∈ row.2.methods) (hcode : method.code row.2.pool = .ok code) :
    code ∈ classes.codes := by
  refine List.mem_flatMap.2 ⟨row, hrow, List.mem_filterMap.2 ⟨method, hmethod, ?_⟩⟩
  rw [hcode]
  rfl

/-- The number of bytes in the longest code. -/
def ClassTable.longestCode (classes : ClassTable) : Nat :=
  (classes.codes.map fun code => code.bytes.size).max?.getD 0

theorem ClassTable.size_le_longestCode {classes : ClassTable} {code : Code} (h : code ∈ classes.codes) :
    code.bytes.size ≤ classes.longestCode :=
  List.le_max?_getD_of_mem (List.mem_map_of_mem h)

/-! ## The code in front of a frame -/

/-- The number of bytes of code that a frame has in front of it. -/
def Frame.ahead (frame : Frame) : Nat :=
  frame.code.bytes.size - frame.pc

theorem Frame.ahead_handed (caller done : Frame) : (caller.handed done).ahead = caller.ahead := by
  obtain ⟨stack, hhanded⟩ := caller.handed_eq done
  rw [hhanded]
  rfl

namespace Machine

open ClassMachine.Frame

variable {machine : Machine} {clock : Nat → Nat}

/-- An instruction leaves less code in front of its frame, if jumps lead forward. -/
theorem Moves.ahead_lt {instruction : Instruction} {frame after : Frame} (h : Moves instruction frame after)
    (hforward : frame.code.JumpsForward) (hdone : frame.isDone = false)
    (hdecode : Instruction.decode frame.code.bytes frame.pc = .ok instruction) : after.ahead < frame.ahead := by
  have hpc := lt_size_of_not_isDone hdone
  unfold Frame.ahead
  cases h with
  | onward =>
    have hlength : 0 < instruction.length := instruction.opcode.length_pos
    dsimp only
    omega
  | @jump _ distance hopcode hoperand =>
    have hdistance : 0 < distance.toInt := by
      apply hforward frame.pc distance
      obtain ⟨opcode, operand⟩ := instruction
      obtain rfl : operand = .offset distance := hoperand
      cases opcode with
      | goto => exact .inl hdecode
      | ifIcmpne => exact .inr hdecode
      | _ => cases hopcode
    dsimp only
    omega
  | ireturn =>
    dsimp only
    omega
  | voidReturn =>
    dsimp only
    omega

/-! ## The weight of code -/

/-- What a byte of code weighs in a frame above which there is room for so many more: one if nothing can be called, or
else more than all the code that can be called there, which is `longest` bytes at most. -/
def weight (longest : Nat) : (room : Nat) → Nat
  | 0 => 1
  | room + 1 => longest * weight longest room + 2

theorem weight_pos (longest room : Nat) : 0 < weight longest room := by
  cases room with
  | zero => exact Nat.one_pos
  | succ room => exact Nat.succ_pos _

/-- The weight of the code in front of all frames, and one for each frame. -/
def potential (longest callDepth : Nat) : List Frame → Nat
  | [] => 0
  | frame :: below =>
    frame.ahead * weight longest (callDepth - (below.length + 1)) + 1 + potential longest callDepth below

/-- The code of a method that is called is in the table. -/
theorem Dispatch.code_mem_codes {caller : Frame} {index : UInt16} (dispatch : Dispatch machine caller index) :
    dispatch.callee.code ∈ machine.classes.codes := by
  obtain ⟨-, hclass, hmethod, -⟩ := resolve_eq_ok dispatch.resolve_eq
  exact ClassTable.mem_codes (ClassTable.mem_rows_of_find? hclass) (List.mem_of_find?_eq_some hmethod) dispatch.code_eq

/-- A call trades a byte of the caller's code for the code of the method called, which weighs less. -/
theorem Dispatch.potential_lt {longest callDepth : Nat} {frame : Frame} {below : List Frame} {index : UInt16}
    (dispatch : Dispatch machine frame index) (hdone : frame.isDone = false)
    (hdepth : below.length + 1 < callDepth) (hlongest : dispatch.callee.code.bytes.size ≤ longest) :
    potential longest callDepth (dispatch.callee :: dispatch.waiting :: below) <
      potential longest callDepth (frame :: below) := by
  obtain ⟨room, hroom⟩ : ∃ room, callDepth = below.length + 2 + room := Nat.exists_eq_add_of_le hdepth
  have hcallee : dispatch.callee.ahead * weight longest room ≤ longest * weight longest room :=
    Nat.mul_le_mul_right _ hlongest
  have hwaiting : dispatch.waiting.ahead + 1 ≤ frame.ahead := by
    have hpc := lt_size_of_not_isDone hdone
    show frame.code.bytes.size - (frame.pc + 3) + 1 ≤ frame.code.bytes.size - frame.pc
    omega
  have hpaid : (dispatch.waiting.ahead + 1) * weight longest (room + 1) ≤ frame.ahead * weight longest (room + 1) :=
    Nat.mul_le_mul_right _ hwaiting
  have hhere : callDepth - (below.length + 1) = room + 1 := by omega
  have habove : callDepth - (below.length + 1 + 1) = room := by omega
  have hweight : weight longest (room + 1) = longest * weight longest room + 2 := rfl
  simp only [potential, List.length_cons, hhere, habove]
  rw [Nat.add_mul, Nat.one_mul] at hpaid
  omega

/-- Every round makes the code in front of the frames weigh less. -/
theorem FrameStep.potential_lt {longest : Nat} {frames next : List Frame} (h : FrameStep machine frames next)
    (hforward : ∀ frame ∈ frames, frame.code.JumpsForward)
    (hlongest : ∀ code ∈ machine.classes.codes, code.bytes.size ≤ longest) :
    potential longest machine.limits.callDepth next < potential longest machine.limits.callDepth frames := by
  cases h with
  | @back done caller below =>
    simp only [potential, ahead_handed]
    omega
  | @step frame after below instruction hdone hdecode hmoves =>
    have hahead := hmoves.ahead_lt (hforward frame List.mem_cons_self) hdone hdecode
    have hweight := weight_pos longest (machine.limits.callDepth - (below.length + 1))
    have hless := Nat.mul_lt_mul_of_pos_right hahead hweight
    simp only [potential]
    omega
  | @call frame below index hdone hdecode hdepth dispatch =>
    exact dispatch.potential_lt hdone hdepth (hlongest _ dispatch.code_mem_codes)

/-! ## Runs over code that jumps forward -/

/-- Only code of the table is run, if the run starts with such code. -/
theorem FrameStep.code_mem_codes {frames next : List Frame} (h : FrameStep machine frames next)
    (hcodes : ∀ frame ∈ frames, frame.code ∈ machine.classes.codes) :
    ∀ frame ∈ next, frame.code ∈ machine.classes.codes := by
  refine h.forall_mem ?_ (fun dispatch => dispatch.code_mem_codes) hcodes
  intro before after hsame hcode
  rw [hsame.code]
  exact hcode

/-- A run over code that jumps forward ends, in no more rounds than the code in front of its frames weighs and one. -/
theorem halts_of_jumpsForward (clock : Nat → Nat) (hforward : ∀ code ∈ machine.classes.codes, code.JumpsForward)
    {state : State} (hstate : ∀ frame ∈ state.stack.frames, frame.code ∈ machine.classes.codes) :
    ∃ count notices halt,
      count ≤ potential machine.classes.longestCode machine.limits.callDepth state.stack.frames + 1 ∧
      Halts machine clock count state notices halt := by
  refine halts_of_decreasing (fun state => ∀ frame ∈ state.stack.frames, frame.code ∈ machine.classes.codes)
    (fun state => potential machine.classes.longestCode machine.limits.callDepth state.stack.frames) ?_ hstate
  intro state next notices hcodes hround
  have hstep := round_frames hround
  refine ⟨hstep.code_mem_codes hcodes, ?_⟩
  exact hstep.potential_lt (fun frame hframe => hforward _ (hcodes frame hframe))
    fun code hcode => ClassTable.size_le_longestCode hcode

/-- Only jumps that do not lead forward can make a run endless. If in all code of a table of classes, at every place
where a `goto` or an `if_icmpne` can be read, its distance is positive, then the run of every method of these classes
ends, with a value or a failure, whatever the arguments and the limits are, without limits on instructions and time too,
and however the methods call themselves and each other. -/
theorem run_ends_of_jumpsForward {σ : Type} (observer : Observer σ) (clock : Nat → Nat) (classes : ClassTable)
    (limits : Limits) {row : String × ClassFile} {method : Member} (arguments : List Int32) (seen : σ)
    (hforward : ∀ code ∈ classes.codes, code.JumpsForward) (hrow : row ∈ classes.rows)
    (hmethod : method ∈ row.2.methods) :
    ∃ fuel halt final, (Engine.bounded observer clock fuel).invoke { classes, limits } row.2 method arguments seen =
      some (halt, final) := by
  rcases henter : Frame.enter row.2 method arguments true with fault | frame
  · obtain ⟨halt, hinvoke, -⟩ := invoke_of_unentered observer clock 0 { classes, limits } seen henter
    exact ⟨0, halt, seen, hinvoke⟩
  · have hcode : frame.code ∈ classes.codes := by
      obtain ⟨code, hcode, rfl⟩ := enter_eq_ok henter
      exact ClassTable.mem_codes hrow hmethod hcode
    obtain ⟨count, notices, halt, -, hhalts⟩ := @halts_of_jumpsForward { classes, limits } clock hforward
      (.ofEntry frame) (List.forall_mem_singleton.2 hcode)
    exact ⟨count, halt, _, invoke_of_halts observer seen henter hhalts (Nat.le_refl count)⟩

/-- A method that jumps to a call of the method of slot 6, and yields the value it gets. -/
def recursiveMethod : Member :=
  ⟨8, 3, 4, [⟨8, [0, 1, 0, 0, 0, 0, 0, 7, 0xa7, 0, 3, 0xb8, 0, 6, 0xac, 0, 0, 0, 0]⟩]⟩

/-- Class `A` with one method `f`, which calls itself. -/
def recursiveClass : ClassFile :=
  { callingClass with methods := [recursiveMethod] }

/-- Method `f` of class `A` calls itself without end, but the depth is limited, so its run ends. -/
theorem run_ends_recursiveMethod :
    let classes : ClassTable := ⟨[("A", recursiveClass)]⟩
    (∀ code ∈ classes.codes, code.JumpsForward) ∧ recursiveMethod ∈ recursiveClass.methods ∧
    ∃ fuel halt final, (Engine.bounded .silent (fun _ => 0) fuel).invoke { classes, limits := {} } recursiveClass
      recursiveMethod [] () = some (halt, final) := by
  intro classes
  have hforward : ∀ code ∈ classes.codes, code.JumpsForward := by decide
  have hmethod : recursiveMethod ∈ recursiveClass.methods := by decide
  exact ⟨hforward, hmethod, run_ends_of_jumpsForward .silent (fun _ => 0) classes {} [] () hforward
    List.mem_cons_self hmethod⟩

/-! ## Runs under a limit on instructions -/

/-- Under a limit on instructions every run ends. For all classes, methods and arguments, whatever the code does, and
for every limit that a counter of 64 bits can hold: the run of a method comes to its end in two rounds for each
instruction that the limit allows and one more, at most. (A loop that makes the rounds and looks for a frame each time
goes around once more after a success, to find none.) Neither at the end nor wherever the run is stopped does the
number of instructions exceed what such a counter holds. -/
theorem run_ends_under_limit {σ : Type} (observer : Observer σ) (clock : Nat → Nat) (classes : ClassTable)
    (callDepth : Nat) (limit : UInt64) (classFile : ClassFile) (method : Member) (arguments : List Int32) (seen : σ) :
    let machine : Machine := { classes, limits := { instructions := some limit.toNat, callDepth } }
    (∃ halt final, (Engine.bounded observer clock (2 * limit.toNat + 1)).invoke machine classFile method arguments
        seen = some (halt, final) ∧ halt.executed < UInt64.size) ∧
      ∀ fuel state final, (Engine.stopping observer clock fuel).invoke machine classFile method arguments seen =
        .error (state, final) → state.executed < UInt64.size := by
  intro machine
  have hlimit : machine.limits.instructions = some limit.toNat := rfl
  have hfits : limit.toNat < UInt64.size := limit.toNat_lt_size
  refine ⟨?_, fun fuel state final hstopped => ?_⟩
  · rcases henter : Frame.enter classFile method arguments true with fault | frame
    · obtain ⟨halt, hinvoke, hexecuted⟩ := invoke_of_unentered observer clock (2 * limit.toNat + 1) machine seen henter
      exact ⟨halt, seen, hinvoke, by omega⟩
    · obtain ⟨count, notices, halt, hcount, hhalts⟩ := halts_of_instruction_limit clock hlimit (2 * limit.toNat + 1)
        (.ofEntry frame) (Nat.zero_le _) (Nat.le_refl _)
      have hexecuted := hhalts.executed_le_limit hlimit (Nat.zero_le _)
      exact ⟨halt, _, invoke_of_halts observer seen henter hhalts hcount, Nat.lt_of_le_of_lt hexecuted hfits⟩
  · have hcase := stopping_cases machine observer clock fuel classFile method arguments seen
    rw [hstopped] at hcase
    cases hcase with
    | paused _ hrounds =>
      have hexecuted := hrounds.executed_le_limit hlimit (Nat.zero_le _)
      exact Nat.lt_of_le_of_lt hexecuted hfits

/-- Method `g` of class `A` executes four instructions, and three are allowed: its run ends within seven rounds, and
where it is stopped after two of them its counter holds what it has executed. -/
theorem run_ends_under_limit_callingMethod :
    let machine : Machine :=
      { classes := callingMachine.classes, limits := { instructions := some (3 : UInt64).toNat, callDepth := 1024 } }
    (∃ halt, (Engine.bounded .silent (fun _ => 0) 7).invoke machine callingClass callingMethod [] () =
      some (halt, ())) ∧
    ∃ state, (Engine.stopping .silent (fun _ => 0) 2).invoke machine callingClass callingMethod [] () =
      .error (state, ()) ∧ state.executed = 2 ∧ state.executed < UInt64.size := by
  intro machine
  obtain ⟨⟨halt, final, hinvoke, -⟩, hstopped⟩ := run_ends_under_limit .silent (fun _ => 0) callingMachine.classes 1024
    3 callingClass callingMethod [] ()
  obtain ⟨state, hstate, hexecuted⟩ : ∃ state, (Engine.stopping .silent (fun _ => 0) 2).invoke machine callingClass
      callingMethod [] () = .error (state, ()) ∧ state.executed = 2 :=
    ⟨_, rfl, rfl⟩
  exact ⟨⟨halt, hinvoke⟩, state, hstate, hexecuted, hstopped 2 state () hstate⟩

end Machine

end ClassMachine
