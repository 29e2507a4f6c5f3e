/-
Runs as sequences of rounds. What a round can do is said once, in `RoundCase`; `Rounds` and `Halts`
count the rounds of a run and collect what they tell, and `run` with enough fuel is exactly that,
whatever observer watches. Without a deadline the clock does not matter, and with a limit on
instructions every run ends: a round either executes an instruction, and adds at most one frame,
or takes a frame away.
-/
import ClassMachine.Proofs.Instruction
import ClassMachine.Session.Engine
import ClassMachine.Trace

namespace ClassMachine

/-! ## Call stacks -/

/-- A caller once a method it called is done, with the value of that method if it gets one. -/
def Frame.handed (caller done : Frame) : Frame :=
  if done.returnsValue then caller.receive done.returnValue else caller

/-- Only the stack of the caller changes. -/
theorem Frame.handed_eq (caller done : Frame) : ∃ stack, caller.handed done = { caller with stack } := by
  unfold Frame.handed
  split
  · exact ⟨caller.stack.push done.returnValue, rfl⟩
  · exact ⟨caller.stack, rfl⟩

/-- Where an instruction can be read, the method is not done. -/
theorem Frame.not_isDone_of_decode {frame : Frame} {instruction : Instruction}
    (h : Instruction.decode frame.code.bytes frame.pc = .ok instruction) : frame.isDone = false := by
  have hlt := Instruction.lt_size_of_decode h
  simp only [Frame.isDone, decide_eq_false_iff_not]
  omega

namespace CallStack

@[simp] theorem top_setTop (stack : CallStack) (frame : Frame) : (stack.setTop frame).top = frame := rfl

/-- A call that is done leaves the stack as it was before the call. -/
@[simp] theorem pop?_push_setTop (stack : CallStack) (callee done : Frame) :
    ((stack.push callee).setTop done).pop? = some stack := rfl

theorem depth_pos (stack : CallStack) : 0 < stack.depth := by
  rw [stack.depth_eq]; omega

theorem depth_of_pop? {stack callers : CallStack} (h : stack.pop? = some callers) :
    stack.depth = callers.depth + 1 := by
  obtain ⟨top, _ | ⟨caller, below⟩, depth, hdepth⟩ := stack
  · cases h
  · cases h
    simp only [List.length_cons] at hdepth
    show depth = depth - 1 + 1
    omega

theorem frames_of_pop? {stack callers : CallStack} (h : stack.pop? = some callers) :
    stack.frames = stack.top :: callers.frames := by
  obtain ⟨top, _ | ⟨caller, below⟩, depth, hdepth⟩ := stack
  · cases h
  · cases h; rfl

theorem length_frames (stack : CallStack) : stack.frames.length = stack.depth :=
  stack.depth_eq.symm

theorem length_frames_pos (stack : CallStack) : 1 ≤ stack.frames.length := by
  rw [length_frames]
  exact stack.depth_pos

/-- The stack below a frame that is done, with the value of that frame on top if the caller gets it. -/
def resume (callers : CallStack) (done : Frame) : CallStack :=
  if done.returnsValue then callers.setTop (callers.top.receive done.returnValue) else callers

@[simp] theorem depth_resume (callers : CallStack) (done : Frame) :
    (callers.resume done).depth = callers.depth := by
  unfold resume; split <;> rfl

theorem frames_resume (callers : CallStack) (done : Frame) :
    (callers.resume done).frames = callers.top.handed done :: callers.callers := by
  unfold resume Frame.handed; split <;> rfl

end CallStack

/-! ## What observers are told -/

/-- The event that a notice tells of, if it does. -/
def Notice.event? : Notice → Option Event
  | executed event => some event
  | _ => none

/-- The events among notices, in order. -/
def eventsOf (notices : List Notice) : List Event :=
  notices.filterMap Notice.event?

@[simp] theorem eventsOf_nil : eventsOf [] = [] := rfl

@[simp] theorem eventsOf_append (notices more : List Notice) :
    eventsOf (notices ++ more) = eventsOf notices ++ eventsOf more :=
  List.filterMap_append

theorem notifyAll_append {σ : Type} (observer : Observer σ) (notices more : List Notice) (seen : σ) :
    observer.notifyAll (notices ++ more) seen = observer.notifyAll more (observer.notifyAll notices seen) :=
  List.foldl_append ..

theorem events_notifyAll_recorder : ∀ (notices : List Notice) (recorder : Recorder),
    (Recorder.hook.observer.notifyAll notices recorder).events.toList =
      recorder.events.toList ++ eventsOf notices
  | [], recorder => by simp [Observer.notifyAll]
  | notice :: notices, recorder => by
    rw [show notice :: notices = [notice] ++ notices from rfl, notifyAll_append,
      events_notifyAll_recorder notices, eventsOf_append, ← List.append_assoc]
    congr 1
    cases notice <;>
      simp [Observer.notifyAll, Hook.observer, Recorder.hook, Recorder.push, eventsOf, Notice.event?]

/-- A recorder keeps the events among the notices and nothing else. -/
theorem notifyAll_recorder_iff (notices : List Notice) (recorder : Recorder) :
    recorder = Recorder.hook.observer.notifyAll notices .empty ↔ eventsOf notices = recorder.events.toList := by
  have h := events_notifyAll_recorder notices .empty
  rw [show Recorder.empty.events.toList = [] from rfl, List.nil_append] at h
  rw [← h, Array.toList_inj]
  generalize Recorder.hook.observer.notifyAll notices .empty = told
  obtain ⟨events⟩ := recorder
  obtain ⟨kept⟩ := told
  simp only [Recorder.mk.injEq, eq_comm]

namespace Machine

/-! ## One round -/

/-- What a round tells. -/
def Round.notices : Round → List Notice
  | next _ notices | halt _ notices => notices

/-- What a round can lead to, with all that must hold for it. -/
inductive RoundCase (machine : Machine) (elapsed : Nat) (state : State) : Round → Prop
  /-- The method that the run started with is done. -/
  | finish (hdone : state.stack.top.isDone = true) (hpop : state.stack.pop? = none) :
      RoundCase machine elapsed state (.halt
        { outcome := .ok state.stack.top.returnValue, executed := state.executed }
        [.returned state.stack.top.site state.stack.top.returnValue])
  /-- A method that was called is done. -/
  | complete (callers : CallStack) (hdone : state.stack.top.isDone = true)
      (hpop : state.stack.pop? = some callers) :
      RoundCase machine elapsed state (.next
        { stack := callers.resume state.stack.top, executed := state.executed }
        [.returned state.stack.top.site state.stack.top.returnValue])
  | limit (fault : Fault) (hdone : state.stack.top.isDone = false)
      (hcheck : machine.limits.check state.executed elapsed = .error fault) :
      RoundCase machine elapsed state (state.abort (.ofFault fault) state.executed)
  | undecodable (error : Instruction.DecodeError) (hdone : state.stack.top.isDone = false)
      (hcheck : machine.limits.check state.executed elapsed = .ok ())
      (hdecode : Instruction.decode state.stack.top.code.bytes state.stack.top.pc = .error error) :
      RoundCase machine elapsed state (state.abort (.ofFault (.noInstruction error)) state.executed)
  | perform (instruction : Instruction) (hdone : state.stack.top.isDone = false)
      (hcheck : machine.limits.check state.executed elapsed = .ok ())
      (hdecode : Instruction.decode state.stack.top.code.bytes state.stack.top.pc = .ok instruction) :
      RoundCase machine elapsed state (machine.perform state instruction)

theorem round_cases (machine : Machine) (elapsed : Nat) (state : State) :
    RoundCase machine elapsed state (machine.round elapsed state) := by
  unfold round
  dsimp only
  rcases hdone : state.stack.top.isDone with _ | _
  · rw [if_neg (by simp)]
    rcases hcheck : machine.limits.check state.executed elapsed with fault | ⟨⟩
    · exact .limit fault hdone hcheck
    · rcases hdecode : Instruction.decode state.stack.top.code.bytes state.stack.top.pc with error | instruction
      · exact .undecodable error hdone hcheck hdecode
      · exact .perform instruction hdone hcheck hdecode
  · rw [if_pos rfl]
    unfold State.complete
    rcases hpop : state.stack.pop? with _ | callers
    · exact .finish hdone hpop
    · exact .complete callers hdone hpop

/-- The round in which a called method that is done goes off the stack. -/
theorem round_of_done (machine : Machine) (elapsed executed : Nat) {stack callers : CallStack}
    (hdone : stack.top.isDone = true) (hpop : stack.pop? = some callers) :
    machine.round elapsed { stack, executed } =
      .next { stack := callers.resume stack.top, executed }
        [.returned stack.top.site stack.top.returnValue] := by
  unfold round State.complete
  dsimp only
  rw [if_pos hdone, hpop]
  rfl

/-- The round in which the method that the run started with is done. -/
theorem round_of_entry_done (machine : Machine) (elapsed executed : Nat) {stack : CallStack}
    (hdone : stack.top.isDone = true) (hpop : stack.pop? = none) :
    machine.round elapsed { stack, executed } =
      .halt { outcome := .ok stack.top.returnValue, executed }
        [.returned stack.top.site stack.top.returnValue] := by
  unfold round State.complete
  dsimp only
  rw [if_pos hdone, hpop]

/-- The round in which an instruction is executed that the limits allow. -/
theorem round_of_decode {machine : Machine} {elapsed : Nat} {state : State} {instruction : Instruction}
    (hcheck : machine.limits.check state.executed elapsed = .ok ())
    (hdecode : Instruction.decode state.stack.top.code.bytes state.stack.top.pc = .ok instruction) :
    machine.round elapsed state = machine.perform state instruction := by
  unfold round
  dsimp only
  rw [Frame.not_isDone_of_decode hdecode, if_neg (by decide), hcheck]
  dsimp only
  rw [hdecode]

/-- Without a deadline only the number of instructions is looked at. -/
theorem check_of_no_deadline {machine : Machine} (h : machine.limits.deadline = none)
    (executed elapsed : Nat) :
    machine.limits.check executed elapsed = machine.limits.checkInstructions executed := by
  unfold Limits.check Limits.checkTime
  rw [h]
  cases machine.limits.checkInstructions executed <;> rfl

/-- The limits that are looked at before an instruction are those on instructions and on time. -/
theorem check_fault_cases {limits : Limits} {executed elapsed : Nat} {fault : Fault}
    (h : limits.check executed elapsed = .error fault) :
    (∃ limit, fault = .instructionLimit limit) ∨ fault = .deadline := by
  unfold Limits.check at h
  rcases hinstructions : limits.checkInstructions executed with reached | ⟨⟩
  · rw [hinstructions] at h
    cases h
    unfold Limits.checkInstructions at hinstructions
    split at hinstructions
    · split at hinstructions <;> cases hinstructions
      exact .inl ⟨_, rfl⟩
    · cases hinstructions
  · rw [hinstructions] at h
    replace h : limits.checkTime elapsed = .error fault := h
    unfold Limits.checkTime at h
    split at h
    · split at h <;> cases h
      exact .inr rfl
    · cases h

/-- A limit on instructions lets through only states that have not reached it. -/
theorem executed_lt_of_check {machine : Machine} {limit executed elapsed : Nat}
    (hlimit : machine.limits.instructions = some limit)
    (h : machine.limits.check executed elapsed = .ok ()) : executed < limit := by
  unfold Limits.check Limits.checkInstructions at h
  rw [hlimit] at h
  refine Nat.lt_of_not_le fun hle => ?_
  dsimp only at h
  rw [if_pos hle] at h
  cases h

/-! ## Many rounds -/

/-- So many rounds lead from one state to another and tell these notices. -/
inductive Rounds (machine : Machine) (clock : Nat → Nat) : Nat → State → List Notice → State → Prop
  | refl (state : State) : Rounds machine clock 0 state [] state
  | cons {count : Nat} {state next final : State} {notices rest : List Notice}
      (hround : machine.round (clock state.executed) state = .next next notices)
      (hrest : Rounds machine clock count next rest final) :
      Rounds machine clock (count + 1) state (notices ++ rest) final

/-- A run from a state ends in its round of this number, and tells these notices until then. -/
inductive Halts (machine : Machine) (clock : Nat → Nat) : Nat → State → List Notice → Halt → Prop
  | last {state : State} {notices : List Notice} {halt : Halt}
      (hround : machine.round (clock state.executed) state = .halt halt notices) :
      Halts machine clock 1 state notices halt
  | cons {count : Nat} {state next : State} {notices rest : List Notice} {halt : Halt}
      (hround : machine.round (clock state.executed) state = .next next notices)
      (hrest : Halts machine clock count next rest halt) :
      Halts machine clock (count + 1) state (notices ++ rest) halt

variable {machine : Machine} {clock : Nat → Nat}

theorem Rounds.one {state next : State} {notices : List Notice}
    (h : machine.round (clock state.executed) state = .next next notices) :
    Rounds machine clock 1 state notices next := by
  have := Rounds.cons h (.refl next)
  rwa [List.append_nil] at this

theorem Rounds.trans {n m : Nat} {first second third : State} {notices more : List Notice}
    (h : Rounds machine clock n first notices second) (h' : Rounds machine clock m second more third) :
    Rounds machine clock (n + m) first (notices ++ more) third := by
  induction h with
  | refl => rwa [Nat.zero_add]
  | cons hround _ ih =>
    rw [List.append_assoc, Nat.add_right_comm]
    exact .cons hround (ih h')

theorem Rounds.halts {n m : Nat} {first second : State} {notices more : List Notice} {halt : Halt}
    (h : Rounds machine clock n first notices second) (h' : Halts machine clock m second more halt) :
    Halts machine clock (n + m) first (notices ++ more) halt := by
  induction h with
  | refl => rwa [Nat.zero_add]
  | cons hround _ ih =>
    rw [List.append_assoc, Nat.add_right_comm]
    exact .cons hround (ih h')

/-- A run that ends goes through every state that rounds lead to. -/
theorem Halts.after_rounds {n m : Nat} {first second : State} {notices all : List Notice} {halt : Halt}
    (h : Rounds machine clock n first notices second) (h' : Halts machine clock m first all halt) :
    ∃ k more, m = n + k ∧ all = notices ++ more ∧ Halts machine clock k second more halt := by
  induction h generalizing m all with
  | refl => exact ⟨m, all, (Nat.zero_add m).symm, rfl, h'⟩
  | cons hround _ ih =>
    cases h' with
    | last hhalt => rw [hround] at hhalt; cases hhalt
    | cons hround' hrest =>
      rw [hround] at hround'
      cases hround'
      obtain ⟨k, more, rfl, rfl, hk⟩ := ih hrest
      exact ⟨k, more, by omega, (List.append_assoc ..).symm, hk⟩

/-- A run has one end. -/
theorem Halts.unique {n m : Nat} {state : State} {notices other : List Notice} {halt halt' : Halt}
    (h : Halts machine clock n state notices halt) (h' : Halts machine clock m state other halt') :
    n = m ∧ notices = other ∧ halt = halt' := by
  induction h generalizing m other with
  | last hround =>
    cases h' with
    | last hround' => rw [hround] at hround'; cases hround'; exact ⟨rfl, rfl, rfl⟩
    | cons hround' _ => rw [hround] at hround'; cases hround'
  | cons hround _ ih =>
    cases h' with
    | last hround' => rw [hround] at hround'; cases hround'
    | cons hround' hrest =>
      rw [hround] at hround'
      cases hround'
      obtain ⟨rfl, rfl, rfl⟩ := ih hrest
      exact ⟨rfl, rfl, rfl⟩

/-- What rounds keep and what they tell: the state they end in has every invariant of the first one. -/
theorem Rounds.preserves (Inv : State → Prop) (Told : Notice → Prop)
    (hstep : ∀ {state next : State} {notices : List Notice}, Inv state →
      machine.round (clock state.executed) state = .next next notices →
      Inv next ∧ ∀ notice ∈ notices, Told notice)
    {n : Nat} {first last : State} {notices : List Notice} (h : Rounds machine clock n first notices last)
    (hinv : Inv first) : Inv last ∧ ∀ notice ∈ notices, Told notice := by
  induction h with
  | refl => exact ⟨hinv, fun _ h => nomatch h⟩
  | cons hround _ ih =>
    have hnext := hstep hinv hround
    have hlast := ih hnext.1
    exact ⟨hlast.1, List.forall_mem_append.2 ⟨hnext.2, hlast.2⟩⟩

/-- A run that ends is rounds that go on and one that does not. -/
theorem Halts.last_round {n : Nat} {first : State} {notices : List Notice} {halt : Halt}
    (h : Halts machine clock n first notices halt) :
    ∃ m last told final, n = m + 1 ∧ Rounds machine clock m first told last ∧ notices = told ++ final ∧
      machine.round (clock last.executed) last = .halt halt final := by
  induction h with
  | @last state notices halt hround => exact ⟨0, state, [], notices, rfl, .refl state, rfl, hround⟩
  | cons hround _ ih =>
    obtain ⟨m, last, told, final, rfl, hrounds, rfl, hhalt⟩ := ih
    exact ⟨m + 1, last, _, final, rfl, .cons hround hrounds, (List.append_assoc ..).symm, hhalt⟩

/-- A run ends if every round that goes on keeps an invariant and lowers a measure. -/
theorem halts_of_decreasing (Inv : State → Prop) (measure : State → Nat)
    (hstep : ∀ {state next : State} {notices : List Notice}, Inv state →
      machine.round (clock state.executed) state = .next next notices → Inv next ∧ measure next < measure state)
    {state : State} (hinv : Inv state) :
    ∃ count notices halt, count ≤ measure state + 1 ∧ Halts machine clock count state notices halt := by
  induction hmeasure : measure state using Nat.strongRecOn generalizing state with
  | ind bound ih =>
    rcases hround : machine.round (clock state.executed) state with ⟨next, told⟩ | ⟨halt, told⟩
    · obtain ⟨hnext, hlower⟩ := hstep hinv hround
      obtain ⟨count, notices, halt, hcount, hhalts⟩ := ih (measure next) (by omega) hnext rfl
      exact ⟨count + 1, told ++ notices, halt, by omega, .cons hround hhalts⟩
    · exact ⟨1, told, halt, by omega, .last hround⟩

/-! ## Runs with fuel -/

/-- A run with fuel finishes exactly if it has so many rounds at most, and the observer is told
their notices in order. -/
theorem run_eq_finished_iff {σ : Type} (observer : Observer σ) (fuel : Nat) (state : State)
    (seen final : σ) (halt : Halt) :
    machine.run observer clock fuel state seen = .finished halt final ↔
      ∃ count notices, count ≤ fuel ∧ Halts machine clock count state notices halt ∧
        final = observer.notifyAll notices seen := by
  induction fuel generalizing state seen with
  | zero =>
    constructor
    · intro h; cases h
    · rintro ⟨count, notices, hle, h, -⟩
      cases h <;> omega
  | succ fuel ih =>
    rcases hround : machine.round (clock state.executed) state with ⟨next, told⟩ | ⟨halt', told⟩
    · simp only [run, hround, ih]
      constructor
      · rintro ⟨count, notices, hle, h, rfl⟩
        exact ⟨count + 1, told ++ notices, by omega, .cons hround h, (notifyAll_append ..).symm⟩
      · rintro ⟨count, notices, hle, h, rfl⟩
        cases h with
        | last hround' => rw [hround] at hround'; cases hround'
        | cons hround' hrest =>
          rw [hround] at hround'
          cases hround'
          exact ⟨_, _, by omega, hrest, notifyAll_append ..⟩
    · simp only [run, hround, Progress.finished.injEq]
      constructor
      · rintro ⟨rfl, rfl⟩
        exact ⟨1, told, by omega, .last hround, rfl⟩
      · rintro ⟨count, notices, -, h, rfl⟩
        cases h with
        | last hround' => rw [hround] at hround'; cases hround'; exact ⟨rfl, rfl⟩
        | cons hround' _ => rw [hround] at hround'; cases hround'

/-- A run with fuel is paused exactly if it has a round for each unit of it and goes on. -/
theorem run_eq_paused_iff {σ : Type} (observer : Observer σ) (fuel : Nat) (state last : State) (seen final : σ) :
    machine.run observer clock fuel state seen = .paused last final ↔
      ∃ notices, Rounds machine clock fuel state notices last ∧ final = observer.notifyAll notices seen := by
  induction fuel generalizing state seen with
  | zero =>
    simp only [run, Progress.paused.injEq]
    constructor
    · rintro ⟨rfl, rfl⟩
      exact ⟨[], .refl state, rfl⟩
    · rintro ⟨notices, h, rfl⟩
      cases h
      exact ⟨rfl, rfl⟩
  | succ fuel ih =>
    rcases hround : machine.round (clock state.executed) state with ⟨next, told⟩ | ⟨halt, told⟩
    · simp only [run, hround, ih]
      constructor
      · rintro ⟨notices, h, rfl⟩
        exact ⟨told ++ notices, .cons hround h, (notifyAll_append ..).symm⟩
      · rintro ⟨notices, h, rfl⟩
        cases h with
        | cons hround' hrest =>
          rw [hround] at hround'
          cases hround'
          exact ⟨_, hrest, notifyAll_append ..⟩
    · simp only [run, hround, reduceCtorEq, false_iff]
      rintro ⟨notices, h, rfl⟩
      cases h with
      | cons hround' => rw [hround] at hround'; cases hround'

/-- The run of a method tells these notices and ends so. A method that cannot be entered ends its run
at once, and nothing is told. -/
inductive MethodHalts (machine : Machine) (clock : Nat → Nat) (classFile : ClassFile) (method : Member)
    (arguments : List Int32) : List Notice → Halt → Prop
  | unentered {fault : Fault} (henter : Frame.enter classFile method arguments true = .error fault) :
      MethodHalts machine clock classFile method arguments [] {
        outcome := .error ((Failure.ofFault fault).locate (.entry (classFile.site method)))
        executed := 0 }
  | entered {frame : Frame} {count : Nat} {notices : List Notice} {halt : Halt}
      (henter : Frame.enter classFile method arguments true = .ok frame)
      (hhalts : Halts machine clock count (.ofEntry frame) notices halt) :
      MethodHalts machine clock classFile method arguments (.started frame.site arguments :: notices) halt

theorem MethodHalts.unique {classFile : ClassFile} {method : Member} {arguments : List Int32}
    {notices other : List Notice} {halt halt' : Halt}
    (h : MethodHalts machine clock classFile method arguments notices halt)
    (h' : MethodHalts machine clock classFile method arguments other halt') : notices = other ∧ halt = halt' := by
  cases h with
  | unentered henter =>
    cases h' with
    | unentered henter' => rw [henter] at henter'; cases henter'; exact ⟨rfl, rfl⟩
    | entered henter' _ => rw [henter] at henter'; cases henter'
  | entered henter hhalts =>
    cases h' with
    | unentered henter' => rw [henter] at henter'; cases henter'
    | entered henter' hhalts' =>
      rw [henter] at henter'
      cases henter'
      obtain ⟨-, rfl, rfl⟩ := hhalts.unique hhalts'
      exact ⟨rfl, rfl⟩

/-- Where no frame can be made for a method, its run ends before the first round. -/
theorem invoke_of_unentered {σ : Type} (observer : Observer σ) (clock : Nat → Nat) (fuel : Nat) (machine : Machine)
    {classFile : ClassFile} {method : Member} {arguments : List Int32} {fault : Fault} (seen : σ)
    (henter : Frame.enter classFile method arguments true = .error fault) :
    ∃ halt, (Engine.bounded observer clock fuel).invoke machine classFile method arguments seen = some (halt, seen) ∧
      halt.executed = 0 := by
  unfold Engine.invoke
  rw [henter]
  exact ⟨_, rfl, rfl⟩

/-- An engine that has a unit of fuel for each round brings the run of a method to its end. -/
theorem invoke_of_halts {σ : Type} (observer : Observer σ) {classFile : ClassFile} {method : Member}
    {arguments : List Int32} {frame : Frame} {count fuel : Nat} {notices : List Notice} {halt : Halt} (seen : σ)
    (henter : Frame.enter classFile method arguments true = .ok frame)
    (hhalts : Halts machine clock count (.ofEntry frame) notices halt) (hfuel : count ≤ fuel) :
    (Engine.bounded observer clock fuel).invoke machine classFile method arguments seen =
      some (halt, observer.notifyAll (.started frame.site arguments :: notices) seen) := by
  unfold Engine.invoke Engine.bounded
  rw [henter]
  dsimp only
  rw [(run_eq_finished_iff ..).2 ⟨count, notices, hfuel, hhalts, rfl⟩]
  rfl

/-- An engine with enough fuel brings the run of a method to its end, and its observer is told all
notices in order. -/
theorem invoke_bounded_iff {σ : Type} (observer : Observer σ) (clock : Nat → Nat) (machine : Machine)
    (classFile : ClassFile) (method : Member) (arguments : List Int32) (seen final : σ) (halt : Halt) :
    (∃ fuel, (Engine.bounded observer clock fuel).invoke machine classFile method arguments seen =
        some (halt, final)) ↔
      ∃ notices, MethodHalts machine clock classFile method arguments notices halt ∧
        final = observer.notifyAll notices seen := by
  unfold Engine.invoke
  rcases henter : Frame.enter classFile method arguments true with fault | frame
  · constructor
    · rintro ⟨fuel, h⟩
      cases h
      exact ⟨[], .unentered henter, rfl⟩
    · rintro ⟨notices, h, rfl⟩
      cases h with
      | unentered henter' => rw [henter] at henter'; cases henter'; exact ⟨0, rfl⟩
      | entered henter' _ => rw [henter] at henter'; cases henter'
  · have hfinish : ∀ fuel, (Engine.bounded observer clock fuel).finish machine (.ofEntry frame)
        (observer.notify (.started frame.site arguments) seen) = some (halt, final) ↔
        machine.run observer clock fuel (.ofEntry frame)
          (observer.notify (.started frame.site arguments) seen) = .finished halt final := by
      intro fuel
      unfold Engine.bounded
      dsimp only
      split
      · rename_i hrun; rw [hrun]; simp
      · rename_i hrun; rw [hrun]; simp
    constructor
    · rintro ⟨fuel, h⟩
      obtain ⟨count, notices, -, hhalts, rfl⟩ := (run_eq_finished_iff ..).1 ((hfinish fuel).1 h)
      exact ⟨_, .entered henter hhalts, rfl⟩
    · rintro ⟨notices, h, rfl⟩
      cases h with
      | unentered henter' => rw [henter] at henter'; cases henter'
      | entered henter' hhalts =>
        rw [henter] at henter'
        cases henter'
        exact ⟨_, (hfinish _).2 ((run_eq_finished_iff ..).2 ⟨_, _, Nat.le_refl _, hhalts, rfl⟩)⟩

/-! ## Runs under a limit on instructions -/

/-- What an executed instruction does to the number of instructions and the number of frames. -/
theorem perform_next {state next : State} {instruction : Instruction} {notices : List Notice}
    (h : machine.perform state instruction = .next next notices) :
    next.executed = state.executed + 1 ∧ next.stack.depth ≤ state.stack.depth + 1 := by
  unfold perform at h
  split at h
  · cases h
  · cases h; exact ⟨rfl, Nat.le_succ _⟩
  · cases h; exact ⟨rfl, Nat.le_refl _⟩

/-- A round that goes on executes one of the instructions that the limit leaves, and adds a frame at most, or takes a
frame away. -/
theorem round_next_of_limit {limit : Nat} (hlimit : machine.limits.instructions = some limit) {elapsed : Nat}
    {state next : State} {notices : List Notice} (hle : state.executed ≤ limit)
    (h : machine.round elapsed state = .next next notices) :
    next.executed ≤ limit ∧
      2 * (limit - next.executed) + next.stack.depth < 2 * (limit - state.executed) + state.stack.depth := by
  have hcase := round_cases machine elapsed state
  rw [h] at hcase
  generalize hresult : Round.next next notices = result at hcase
  cases hcase with
  | finish => cases hresult
  | complete callers _ hpop =>
    cases hresult
    have hdepth := CallStack.depth_of_pop? hpop
    simp only [CallStack.depth_resume]
    omega
  | limit => cases hresult
  | undecodable => cases hresult
  | perform instruction _ hcheck _ =>
    have hlt := executed_lt_of_check hlimit hcheck
    have hnext := perform_next hresult.symm
    omega

/-- Under a limit on instructions a run ends: every instruction that is left pays for its own round
and for the round in which the frame it adds is taken away. -/
theorem halts_of_instruction_limit (clock : Nat → Nat) {limit : Nat} (hlimit : machine.limits.instructions = some limit)
    (fuel : Nat) (state : State) (hle : state.executed ≤ limit)
    (hfuel : 2 * (limit - state.executed) + state.stack.depth ≤ fuel) :
    ∃ count notices halt, count ≤ fuel ∧ Halts machine clock count state notices halt := by
  -- there is always a frame, so the last one need not be counted
  obtain ⟨count, notices, halt, hcount, hhalts⟩ := @halts_of_decreasing machine clock
    (fun state => state.executed ≤ limit) (fun state => 2 * (limit - state.executed) + state.stack.depth - 1)
    (fun {state next told} hle hround => by
      have hnext := round_next_of_limit hlimit hle hround
      have hpos := next.stack.depth_pos
      omega) state hle
  have hpos := state.stack.depth_pos
  exact ⟨count, notices, halt, by omega, hhalts⟩

end Machine

end ClassMachine
