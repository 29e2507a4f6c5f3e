/-
Two machines side by side. A machine agrees with another up to some faults if calls and limits come to the
same on both, but where the first machine fails with such a fault (`Agrees`). Then the rounds of the first
are rounds of the other, and a run that ends in no such fault ends the same on both (`Halts.agrees`). A
machine agrees with one that knows more classes up to the faults of missing classes, with one that has a
higher limit on instructions up to the faults of that limit, and with itself under another clock.
-/
import ClassMachine.Proofs.Machine.Activation
import ClassMachine.Proofs.Machine.Rounds

namespace ClassMachine

/-- A class is missing. -/
def Fault.IsNoClass : Fault → Prop
  | noClass _ => True
  | _ => False

/-- The limit on instructions is reached. -/
def Fault.IsInstructionLimit : Fault → Prop
  | instructionLimit _ => True
  | _ => False

/-- Every class of the first table is in the second, under the same name. -/
def ClassTable.Within (table other : ClassTable) : Prop :=
  ∀ name classFile, table.find? name = some classFile → other.find? name = some classFile

theorem ClassTable.Within.trans {first second third : ClassTable} (h : first.Within second)
    (h' : second.Within third) : first.Within third :=
  fun name classFile hfind => h' name classFile (h name classFile hfind)

@[simp] theorem Failure.fault_locate (failure : Failure) (location : Location) :
    (failure.locate location).fault = failure.fault := rfl

@[simp] theorem Failure.fault_ofFault (fault : Fault) : (Failure.ofFault fault).fault = fault := rfl

namespace Machine

/-- The run ends in such a fault. -/
def Halt.FailsWith (halt : Halt) (kind : Fault → Prop) : Prop :=
  ∃ failure, halt.outcome = .error failure ∧ kind failure.fault

theorem Halt.not_failsWith {halt : Halt} {value : Int32} (h : halt.outcome = .ok value) {kind : Fault → Prop} :
    ¬ halt.FailsWith kind := by
  rintro ⟨failure, hfailure, -⟩
  rw [h] at hfailure
  cases hfailure

/-- The machines come to the same, but where the first one fails with an excused fault. The times at which
they look at their limits do not matter. -/
structure Agrees (excused : Fault → Prop) (machine other : Machine) : Prop where
  call : ∀ depth index caller, other.call depth index caller = machine.call depth index caller ∨
    ∃ failure after, machine.call depth index caller = .error failure after ∧ excused failure.fault
  check : ∀ executed elapsed elapsed',
    other.limits.check executed elapsed' = machine.limits.check executed elapsed ∨
      ∃ fault, machine.limits.check executed elapsed = .error fault ∧ excused fault

/-! ## Rounds of machines that agree -/

theorem execute_of_no_call (machine other : Machine) (depth : Nat) {instruction : Instruction}
    (hcall : instruction.callIndex? = none) : other.execute depth instruction = machine.execute depth instruction := by
  obtain ⟨opcode, operand⟩ := instruction
  cases opcode <;> cases operand <;> first | rfl | cases hcall

section

variable {excused : Fault → Prop} {machine other : Machine}

theorem Agrees.execute (h : Agrees excused machine other) (depth : Nat) (instruction : Instruction) (frame : Frame) :
    other.execute depth instruction frame = machine.execute depth instruction frame ∨
      ∃ failure after, machine.execute depth instruction frame = .error failure after ∧ excused failure.fault := by
  rcases hcall : instruction.callIndex? with _ | index
  · exact .inl (congrFun (execute_of_no_call machine other depth hcall) frame)
  · rw [execute_of_call machine depth hcall, execute_of_call other depth hcall]
    rcases h.call depth index frame with heq | ⟨failure, after, hfails, hexcused⟩
    · exact .inl (by rw [heq])
    · exact .inr ⟨failure, after, by rw [hfails], hexcused⟩

theorem Agrees.perform (h : Agrees excused machine other) (state : State) (instruction : Instruction) :
    other.perform state instruction = machine.perform state instruction ∨
      ∃ halt, machine.perform state instruction = .halt halt [] ∧ halt.FailsWith excused := by
  unfold Machine.perform
  rcases h.execute state.stack.depth instruction state.stack.top with heq | ⟨failure, after, hfails, hexcused⟩
  · exact .inl (by rw [heq])
  · right
    rw [hfails]
    exact ⟨_, rfl, _, rfl, by simpa using hexcused⟩

/-- A round is the same on both machines, or it ends the run of the first in an excused fault. -/
theorem Agrees.round (h : Agrees excused machine other) (elapsed elapsed' : Nat) (state : State) :
    other.round elapsed' state = machine.round elapsed state ∨
      ∃ halt, machine.round elapsed state = .halt halt [] ∧ halt.FailsWith excused := by
  unfold Machine.round
  dsimp only
  by_cases hdone : state.stack.top.isDone = true
  · rw [if_pos hdone, if_pos hdone]
    exact .inl rfl
  rw [if_neg hdone, if_neg hdone]
  -- From here on the machines part at the limits or in a call, and nowhere else.
  rcases h.check state.executed elapsed elapsed' with hcheck | ⟨fault, hfails, hexcused⟩
  · rw [hcheck]
    rcases machine.limits.check state.executed elapsed with fault | ⟨⟩
    · exact .inl rfl
    rcases Instruction.decode state.stack.top.code.bytes state.stack.top.pc with error | instruction
    · exact .inl rfl
    · exact h.perform state instruction
  · right
    rw [hfails]
    exact ⟨_, rfl, _, rfl, by simpa using hexcused⟩

variable {clock : Nat → Nat}

/-- Rounds that go on are rounds of the other machine too. -/
theorem Rounds.agrees (clock' : Nat → Nat) (h : Agrees excused machine other) {n : Nat} {first last : State}
    {notices : List Notice} (hrounds : Rounds machine clock n first notices last) :
    Rounds other clock' n first notices last := by
  induction hrounds with
  | refl state => exact .refl state
  | @cons _ state _ _ _ _ hround _ ih =>
    rcases h.round (clock state.executed) (clock' state.executed) state with heq | ⟨halt, hhalt, -⟩
    · exact .cons (heq.trans hround) ih
    · rw [hround] at hhalt; cases hhalt

/-- In any number of rounds the runs come equally far, or the run of the first machine ends in an excused fault. -/
theorem Agrees.run {σ : Type} (h : Agrees excused machine other) (observer : Observer σ) (clock clock' : Nat → Nat)
    (fuel : Nat) (state : State) (seen : σ) :
    other.run observer clock' fuel state seen = machine.run observer clock fuel state seen ∨
      ∃ halt final, machine.run observer clock fuel state seen = .finished halt final ∧ halt.FailsWith excused := by
  induction fuel generalizing state seen with
  | zero => exact .inl rfl
  | succ fuel ih =>
    rw [Machine.run, Machine.run]
    rcases h.round (clock state.executed) (clock' state.executed) state with heq | ⟨halt, hhalt, hfails⟩
    · rw [heq]
      rcases machine.round (clock state.executed) state with ⟨next, told⟩ | ⟨halt, told⟩
      · exact ih next (observer.notifyAll told seen)
      · exact .inl rfl
    · right
      rw [hhalt]
      exact ⟨halt, _, rfl, hfails⟩

/-- A run that ends in no excused fault ends the same on the other machine. -/
theorem Halts.agrees (clock' : Nat → Nat) (h : Agrees excused machine other) {n : Nat} {state : State}
    {notices : List Notice} {halt : Halt} (hhalts : Halts machine clock n state notices halt)
    (hnot : ¬ halt.FailsWith excused) : Halts other clock' n state notices halt := by
  obtain ⟨m, last, told, final, rfl, hrounds, rfl, hround⟩ := hhalts.last_round
  have hlast : Halts other clock' 1 last final halt := by
    rcases h.round (clock last.executed) (clock' last.executed) last with heq | ⟨halt', hhalt, hfails⟩
    · exact .last (heq.trans hround)
    · rw [hround] at hhalt
      cases hhalt
      exact absurd hfails hnot
  exact (hrounds.agrees clock' h).halts hlast

theorem MethodHalts.agrees (clock' : Nat → Nat) (h : Agrees excused machine other) {classFile : ClassFile}
    {method : Member} {arguments : List Int32} {notices : List Notice} {halt : Halt}
    (hhalts : MethodHalts machine clock classFile method arguments notices halt)
    (hnot : ¬ halt.FailsWith excused) : MethodHalts other clock' classFile method arguments notices halt := by
  cases hhalts with
  | unentered henter => exact .unentered henter
  | entered henter hhalts => exact .entered henter (hhalts.agrees clock' h hnot)

end

/-! ## Machines that agree -/

/-- Calls depend on the machine through their targets and the limit on the depth only. -/
theorem agrees_of_resolve {excused : Fault → Prop} {machine other : Machine}
    (hdepth : other.limits.callDepth = machine.limits.callDepth)
    (hresolve : ∀ caller index, other.resolve caller index = machine.resolve caller index ∨
      ∃ fault, machine.resolve caller index = .error fault ∧ excused fault)
    (hcheck : ∀ executed elapsed elapsed',
      other.limits.check executed elapsed' = machine.limits.check executed elapsed ∨
        ∃ fault, machine.limits.check executed elapsed = .error fault ∧ excused fault) :
    Agrees excused machine other where
  check := hcheck
  call depth index caller := by
    rw [call_eq, call_eq]
    rcases hresolve caller.classFile index with heq | ⟨fault, hfails, hexcused⟩
    · left
      rw [heq, hdepth]
    · right
      rw [hfails]
      exact ⟨_, _, rfl, hexcused⟩

theorem check_at_any_time {machine : Machine} (hdeadline : machine.limits.deadline = none)
    (executed elapsed elapsed' : Nat) :
    machine.limits.check executed elapsed' = machine.limits.check executed elapsed := by
  rw [check_of_no_deadline hdeadline, check_of_no_deadline hdeadline]

/-- Without a deadline the clock does not matter. -/
theorem agrees_self {machine : Machine} (hdeadline : machine.limits.deadline = none) :
    Agrees (fun _ => False) machine machine where
  call _ _ _ := .inl rfl
  check executed elapsed elapsed' := .inl (check_at_any_time hdeadline executed elapsed elapsed')

/-- Without a deadline the run of a method has one end, whatever the clock. -/
theorem MethodHalts.unique_of_no_deadline {machine : Machine} {clock clock' : Nat → Nat} {classFile : ClassFile}
    {method : Member} {arguments : List Int32} {notices other : List Notice} {halt halt' : Halt}
    (hdeadline : machine.limits.deadline = none)
    (h : MethodHalts machine clock classFile method arguments notices halt)
    (h' : MethodHalts machine clock' classFile method arguments other halt') : notices = other ∧ halt = halt' := by
  have hsame := h.agrees clock' (agrees_self hdeadline) fun ⟨_, _, hfalse⟩ => hfalse
  exact hsame.unique h'

theorem resolve_of_within {machine other : Machine} (h : machine.classes.Within other.classes) (caller : ClassFile)
    (index : UInt16) : other.resolve caller index = machine.resolve caller index ∨
      ∃ fault, machine.resolve caller index = .error fault ∧ fault.IsNoClass := by
  rw [resolve_eq, resolve_eq]
  rcases caller.pool.methodRef index with error | ref
  · exact .inl rfl
  dsimp only
  rcases hfind : machine.classes.find? ref.className with _ | classFile
  · exact .inr ⟨.noClass ref.className, rfl, trivial⟩
  · rw [h _ _ hfind]
    exact .inl rfl

theorem agrees_of_within {classes other : ClassTable} {limits : Limits} (hdeadline : limits.deadline = none)
    (h : classes.Within other) : Agrees Fault.IsNoClass ⟨classes, limits⟩ ⟨other, limits⟩ := by
  refine agrees_of_resolve rfl (resolve_of_within h) fun executed elapsed elapsed' => .inl ?_
  exact @check_at_any_time ⟨classes, limits⟩ hdeadline executed elapsed elapsed'

theorem agrees_of_limit (classes : ClassTable) (callDepth : Nat) {limit : Nat} {higher : Option Nat}
    (hhigher : ∀ more, higher = some more → limit ≤ more) :
    Agrees Fault.IsInstructionLimit ⟨classes, { instructions := some limit, callDepth }⟩
      ⟨classes, { instructions := higher, callDepth }⟩ := by
  refine agrees_of_resolve rfl (fun caller index => .inl rfl) fun executed elapsed elapsed' => ?_
  rw [check_of_no_deadline rfl, check_of_no_deadline rfl]
  unfold Limits.checkInstructions
  dsimp only
  by_cases hreached : limit ≤ executed
  · rw [if_pos hreached]
    exact .inr ⟨_, rfl, trivial⟩
  · rw [if_neg hreached]
    left
    cases higher with
    | none => rfl
    | some more =>
      have hmore : ¬ more ≤ executed := by
        have := hhigher more rfl
        omega
      dsimp only
      rw [if_neg hmore]

end Machine

end ClassMachine
