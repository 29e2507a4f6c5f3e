/-
The limit on instructions is exact and changes nothing below it. A run executes no more instructions than its
limit; one that does not end by the limit ends the same under every higher limit and under none; one that does
has executed and traced as many instructions as the limit says, and its trace is where every longer run begins.

Every executed instruction is one event, so the events of rounds count their instructions, and the limit is
reached in a state whose method is not done and that a run without this limit goes through.
-/
import ClassMachine.Proofs.Machine.Agreement
import ClassMachine.Proofs.Machine.Faults
import ClassMachine.Proofs.Machine.Recursion

namespace ClassMachine

theorem Opcode.Raises.not_isInstructionLimit {opcode : Opcode} {fault : Fault} (h : opcode.Raises fault) :
    ¬ fault.IsInstructionLimit := by
  intro hlimit
  cases fault <;> first | exact hlimit.elim | (cases opcode <;> exact h.elim)

namespace Machine

variable {machine : Machine} {clock : Nat → Nat}

/-! ## Rounds and the instructions they execute -/

theorem perform_next_events {state next : State} {instruction : Instruction} {notices : List Notice}
    (h : machine.perform state instruction = .next next notices) : (eventsOf notices).length = 1 := by
  unfold perform at h
  split at h
  · cases h
  · cases h; rfl
  · cases h; rfl

/-- A round that goes on takes away a method that is done, or executes one instruction. -/
theorem round_next_cases {elapsed : Nat} {state next : State} {notices : List Notice}
    (h : machine.round elapsed state = .next next notices) :
    (state.stack.top.isDone = true ∧ next.executed = state.executed ∧ eventsOf notices = []) ∨
      (machine.limits.check state.executed elapsed = .ok () ∧ next.executed = state.executed + 1 ∧
        (eventsOf notices).length = 1) := by
  have hcase := round_cases machine elapsed state
  rw [h] at hcase
  generalize hresult : Round.next next notices = result at hcase
  cases hcase with
  | finish => cases hresult
  | complete callers hdone => cases hresult; exact .inl ⟨hdone, rfl, rfl⟩
  | limit => cases hresult
  | undecodable => cases hresult
  | perform instruction _ hcheck _ =>
    exact .inr ⟨hcheck, (perform_next hresult.symm).1, perform_next_events hresult.symm⟩

/-- How a round can end a run. -/
inductive HaltCase (machine : Machine) (elapsed : Nat) (state : State) : Halt → List Notice → Prop
  | done (hdone : state.stack.top.isDone = true) (value : Int32) (notices : List Notice)
      (hevents : eventsOf notices = []) :
      HaltCase machine elapsed state { outcome := .ok value, executed := state.executed } notices
  | limit (hdone : state.stack.top.isDone = false) (fault : Fault) (location : Location)
      (hcheck : machine.limits.check state.executed elapsed = .error fault) :
      HaltCase machine elapsed state
        { outcome := .error { fault, location := some location }, executed := state.executed } []
  /-- The instruction fails, when it is read or when it is executed. -/
  | failed (failure : Failure) (executed : Nat) (hcheck : machine.limits.check state.executed elapsed = .ok ())
      (hfault : ¬ failure.fault.IsInstructionLimit) (hlower : state.executed ≤ executed)
      (hupper : executed ≤ state.executed + 1) :
      HaltCase machine elapsed state { outcome := .error failure, executed } []

theorem perform_halt {state : State} {instruction : Instruction} {halt : Halt} {notices : List Notice}
    (h : machine.perform state instruction = .halt halt notices) :
    ∃ failure, halt = { outcome := .error failure, executed := state.executed + 1 } ∧ notices = [] ∧
      ¬ failure.fault.IsInstructionLimit := by
  unfold perform at h
  rcases hexecute : machine.execute state.stack.depth instruction state.stack.top with
    ⟨_ | call, after⟩ | ⟨failure, after⟩
  · rw [hexecute] at h; cases h
  · rw [hexecute] at h; cases h
  · rw [hexecute] at h
    cases h
    refine ⟨_, rfl, rfl, ?_⟩
    rw [Failure.fault_locate]
    rcases execute_error hexecute with ⟨fault, rfl, hraises⟩ | ⟨index, -, target, error, -, -, rfl⟩
    · exact hraises.not_isInstructionLimit
    · exact id

theorem round_halt_cases {elapsed : Nat} {state : State} {halt : Halt} {notices : List Notice}
    (h : machine.round elapsed state = .halt halt notices) : HaltCase machine elapsed state halt notices := by
  have hcase := round_cases machine elapsed state
  rw [h] at hcase
  generalize hresult : Round.halt halt notices = result at hcase
  cases hcase with
  | finish hdone => cases hresult; exact .done hdone _ _ rfl
  | complete => cases hresult
  | limit fault hdone hcheck => cases hresult; exact .limit hdone fault _ hcheck
  | undecodable error _ hcheck _ =>
    cases hresult
    exact .failed _ _ hcheck id (Nat.le_refl _) (Nat.le_succ _)
  | perform instruction _ hcheck _ =>
    obtain ⟨failure, rfl, rfl, hfault⟩ := perform_halt hresult.symm
    exact .failed failure _ hcheck hfault (Nat.le_succ _) (Nat.le_refl _)

/-- Rounds execute as many instructions as they tell events. -/
theorem Rounds.executed_eq {n : Nat} {first last : State} {notices : List Notice}
    (h : Rounds machine clock n first notices last) :
    last.executed = first.executed + (eventsOf notices).length := by
  induction h with
  | refl => rfl
  | cons hround _ ih =>
    rw [eventsOf_append, List.length_append]
    rcases round_next_cases hround with ⟨-, hexecuted, hevents⟩ | ⟨-, hexecuted, hevents⟩
    · rw [hevents, List.length_nil]
      omega
    · omega

theorem Halts.executed_le {n : Nat} {state : State} {notices : List Notice} {halt : Halt}
    (h : Halts machine clock n state notices halt) : state.executed ≤ halt.executed := by
  obtain ⟨m, last, told, final, -, hrounds, -, hround⟩ := h.last_round
  have hcount := hrounds.executed_eq
  cases round_halt_cases hround with
  | done => dsimp only; omega
  | limit => dsimp only; omega
  | failed failure executed _ _ hlower _ => dsimp only; omega

/-- A method that is not done takes one more instruction to succeed. -/
theorem Halts.executed_lt {n : Nat} {state : State} {notices : List Notice} {halt : Halt} {value : Int32}
    (h : Halts machine clock n state notices halt) (hdone : state.stack.top.isDone = false)
    (hvalue : halt.outcome = .ok value) : state.executed < halt.executed := by
  cases h with
  | last hround =>
    cases round_halt_cases hround with
    | done hdone' => rw [hdone] at hdone'; cases hdone'
    | limit => cases hvalue
    | failed => cases hvalue
  | cons hround hrest =>
    have hle := hrest.executed_le
    rcases round_next_cases hround with ⟨hdone', -⟩ | ⟨-, hexecuted, -⟩
    · rw [hdone] at hdone'; cases hdone'
    · omega

/-! ## Runs under a limit -/

section Limit

variable {limit : Nat} (hlimit : machine.limits.instructions = some limit)

include hlimit

theorem Rounds.executed_le_limit {n : Nat} {first last : State} {notices : List Notice}
    (h : Rounds machine clock n first notices last) (hfirst : first.executed ≤ limit) : last.executed ≤ limit := by
  refine (Rounds.preserves (fun state => state.executed ≤ limit) (fun _ => True) ?_ h hfirst).1
  intro state next notices hle hround
  refine ⟨?_, fun _ _ => trivial⟩
  rcases round_next_cases hround with ⟨-, hexecuted, -⟩ | ⟨hcheck, hexecuted, -⟩
  · omega
  · have := executed_lt_of_check hlimit hcheck
    omega

theorem Halts.executed_le_limit {n : Nat} {state : State} {notices : List Notice} {halt : Halt}
    (h : Halts machine clock n state notices halt) (hstate : state.executed ≤ limit) : halt.executed ≤ limit := by
  obtain ⟨m, last, told, final, -, hrounds, -, hround⟩ := h.last_round
  have hlast := hrounds.executed_le_limit hlimit hstate
  cases round_halt_cases hround with
  | done => exact hlast
  | limit => exact hlast
  | failed failure executed hcheck _ _ hupper =>
    have := executed_lt_of_check hlimit hcheck
    dsimp only
    omega

theorem check_eq_error {executed elapsed : Nat} {fault : Fault} (hdeadline : machine.limits.deadline = none)
    (h : machine.limits.check executed elapsed = .error fault) :
    limit ≤ executed ∧ fault = .instructionLimit limit := by
  rw [check_of_no_deadline hdeadline] at h
  unfold Limits.checkInstructions at h
  rw [hlimit] at h
  dsimp only at h
  split at h
  · rename_i hle; cases h; exact ⟨hle, rfl⟩
  · cases h

/-- A run that ends by the limit ends in a state that has reached the limit with a method that is not done. -/
theorem Halts.limit_reached {n : Nat} {state : State} {notices : List Notice} {halt : Halt}
    (hdeadline : machine.limits.deadline = none) (h : Halts machine clock n state notices halt)
    (hstate : state.executed ≤ limit) (hfails : halt.FailsWith Fault.IsInstructionLimit) :
    (∃ location, halt = { outcome := .error { fault := .instructionLimit limit, location }, executed := limit }) ∧
      ∃ m last, Rounds machine clock m state notices last ∧ last.stack.top.isDone = false ∧
        last.executed = limit := by
  obtain ⟨m, last, told, final, -, hrounds, rfl, hround⟩ := h.last_round
  have hlast := hrounds.executed_le_limit hlimit hstate
  obtain ⟨failure, hfailure, hkind⟩ := hfails
  cases round_halt_cases hround with
  | done => cases hfailure
  | limit hdone fault location hcheck =>
    -- the check lets no state past the limit, so the run stops right at it
    obtain ⟨hle, rfl⟩ := check_eq_error hlimit hdeadline hcheck
    have hexecuted : last.executed = limit := Nat.le_antisymm hlast hle
    rw [List.append_nil]
    exact ⟨⟨some location, by rw [hexecuted]⟩, m, last, hrounds, hdone, hexecuted⟩
  | failed failed _ _ hfault =>
    cases hfailure
    exact absurd hkind hfault

/-- Under a limit on instructions the run of every method ends. -/
theorem methodHalts_of_limit (clock : Nat → Nat) (classFile : ClassFile) (method : Member) (arguments : List Int32) :
    ∃ notices halt, MethodHalts machine clock classFile method arguments notices halt := by
  rcases henter : Frame.enter classFile method arguments true with fault | frame
  · exact ⟨_, _, .unentered henter⟩
  · obtain ⟨count, notices, halt, -, hhalts⟩ := halts_of_instruction_limit clock hlimit (2 * limit + 1)
      (.ofEntry frame) (Nat.zero_le limit) (Nat.le_refl _)
    exact ⟨_, halt, .entered henter hhalts⟩

theorem MethodHalts.executed_le_limit {classFile : ClassFile} {method : Member} {arguments : List Int32}
    {notices : List Notice} {halt : Halt} (h : MethodHalts machine clock classFile method arguments notices halt) :
    halt.executed ≤ limit := by
  cases h with
  | unentered => exact Nat.zero_le limit
  | entered _ hhalts => exact hhalts.executed_le_limit hlimit (Nat.zero_le limit)

/-- Where a run ends by the limit, every run that is not bound by it has executed as much, and goes on. -/
theorem MethodHalts.limit_reached {other : Machine} {clock' : Nat → Nat} {classFile : ClassFile} {method : Member}
    {arguments : List Int32} {notices notices' : List Notice} {halt halt' : Halt}
    (hdeadline : machine.limits.deadline = none) (hagrees : Agrees Fault.IsInstructionLimit machine other)
    (h : MethodHalts machine clock classFile method arguments notices halt)
    (hfails : halt.FailsWith Fault.IsInstructionLimit)
    (h' : MethodHalts other clock' classFile method arguments notices' halt') :
    (∃ location, halt = { outcome := .error { fault := .instructionLimit limit, location }, executed := limit }) ∧
      (eventsOf notices).length = limit ∧ eventsOf notices <+: eventsOf notices' ∧
      ∀ value, halt'.outcome = .ok value → limit < halt'.executed := by
  cases h with
  | unentered henter =>
    obtain ⟨failure, hfailure, hkind⟩ := hfails
    obtain ⟨error, -, rfl⟩ := enter_error henter
    cases hfailure
    exact hkind.elim
  | @entered frame _ told _ henter hhalts =>
    obtain ⟨hhalt, m, last, hrounds, hdone, hexecuted⟩ :=
      hhalts.limit_reached hlimit hdeadline (Nat.zero_le limit) hfails
    cases h' with
    | unentered henter' => rw [henter] at henter'; cases henter'
    | entered henter' hhalts' =>
      rw [henter] at henter'
      cases henter'
      -- the other run goes through the state in which this one ends
      obtain ⟨k, more, -, rfl, hrest⟩ := hhalts'.after_rounds (hrounds.agrees clock' hagrees)
      have hcount : last.executed = 0 + (eventsOf told).length := hrounds.executed_eq
      refine ⟨hhalt, ?_, ?_, ?_⟩
      · show (eventsOf told).length = limit
        omega
      · show eventsOf told <+: eventsOf (told ++ more)
        rw [eventsOf_append]
        exact List.prefix_append _ _
      · intro value hvalue
        have := hrest.executed_lt hdone hvalue
        omega

end Limit

/-! ## Recorded runs -/

/-- The run of a method, watched by a recorder that keeps all events, ends so. -/
def RecordedRun (machine : Machine) (classFile : ClassFile) (method : Member) (arguments : List Int32) (halt : Halt)
    (recorder : Recorder) : Prop :=
  ∃ clock fuel, (Engine.bounded Recorder.hook.observer clock fuel).invoke machine classFile method arguments
    .empty = some (halt, recorder)

variable {classFile : ClassFile} {method : Member} {arguments : List Int32}

theorem recordedRun_iff {halt : Halt} {recorder : Recorder} :
    RecordedRun machine classFile method arguments halt recorder ↔
      ∃ clock notices, MethodHalts machine clock classFile method arguments notices halt ∧
        eventsOf notices = recorder.events.toList := by
  unfold RecordedRun
  simp only [invoke_bounded_iff, notifyAll_recorder_iff]

theorem RecordedRun.of_methodHalts {clock : Nat → Nat} {notices : List Notice} {halt : Halt}
    (h : MethodHalts machine clock classFile method arguments notices halt) :
    RecordedRun machine classFile method arguments halt ⟨(eventsOf notices).toArray⟩ :=
  recordedRun_iff.2 ⟨clock, notices, h, rfl⟩

/-- Without a deadline a recorded run has one end, whatever the clock. -/
theorem RecordedRun.unique (hdeadline : machine.limits.deadline = none) {halt halt' : Halt}
    {recorder recorder' : Recorder} (h : RecordedRun machine classFile method arguments halt recorder)
    (h' : RecordedRun machine classFile method arguments halt' recorder') : halt' = halt ∧ recorder' = recorder := by
  obtain ⟨clock, notices, hhalts, hevents⟩ := recordedRun_iff.1 h
  obtain ⟨clock', notices', hhalts', hevents'⟩ := recordedRun_iff.1 h'
  obtain ⟨rfl, rfl⟩ := hhalts.unique_of_no_deadline hdeadline hhalts'
  refine ⟨rfl, ?_⟩
  obtain ⟨events⟩ := recorder
  obtain ⟨events'⟩ := recorder'
  rw [Recorder.mk.injEq, ← Array.toList_inj, ← hevents, ← hevents']

section Higher

variable {classes : ClassTable} {callDepth limit : Nat} {higher : Option Nat} {halt halt' : Halt}
  {recorder recorder' : Recorder} (hhigher : ∀ more, higher = some more → limit ≤ more)
  (h : RecordedRun { classes, limits := { instructions := some limit, callDepth } } classFile method arguments halt
    recorder)

include hhigher h

/-- A run that does not end by its limit is the run under every higher limit. -/
theorem RecordedRun.iff_of_higher (hnot : ¬ halt.FailsWith Fault.IsInstructionLimit) :
    RecordedRun { classes, limits := { instructions := higher, callDepth } } classFile method arguments halt'
      recorder' ↔ halt' = halt ∧ recorder' = recorder := by
  obtain ⟨clock, notices, hhalts, hevents⟩ := recordedRun_iff.1 h
  have hsame : RecordedRun { classes, limits := { instructions := higher, callDepth } } classFile method arguments halt
      recorder :=
    recordedRun_iff.2 ⟨clock, notices, hhalts.agrees clock (agrees_of_limit classes callDepth hhigher) hnot, hevents⟩
  constructor
  · exact hsame.unique rfl
  · rintro ⟨rfl, rfl⟩
    exact hsame

/-- A run that ends by its limit has used it up, and every run under a higher limit begins like it and goes on. -/
theorem RecordedRun.limit_reached (hfails : halt.FailsWith Fault.IsInstructionLimit)
    (h' : RecordedRun { classes, limits := { instructions := higher, callDepth } } classFile method arguments halt'
      recorder') :
    (∃ location, halt = { outcome := .error { fault := .instructionLimit limit, location }, executed := limit }) ∧
      recorder.events.size = limit ∧ recorder.events.toList <+: recorder'.events.toList ∧
      ∀ value, halt'.outcome = .ok value → limit < halt'.executed := by
  obtain ⟨clock, notices, hhalts, hevents⟩ := recordedRun_iff.1 h
  obtain ⟨clock', notices', hhalts', hevents'⟩ := recordedRun_iff.1 h'
  rw [← Array.length_toList, ← hevents, ← hevents']
  exact hhalts.limit_reached rfl rfl (agrees_of_limit classes callDepth hhigher) hfails hhalts'

end Higher

/-- The limit on instructions is exact and changes nothing below it. For all classes, all methods and arguments,
every limit on the depth and no deadline: under a limit a run ends, after no more instructions than it allows.
If it does not end by the limit, it ends the same, with the same events, under a higher limit and under none. If
it does, it fails for this very limit after as many instructions and events, and every longer run begins with
these events. A run that succeeds without a limit succeeds under exactly the limits that its number of
instructions does not exceed. -/
theorem recordedRun_under_limit (classes : ClassTable) (callDepth : Nat) (classFile : ClassFile) (method : Member)
    (arguments : List Int32) {limit more : Nat} (hle : limit ≤ more) :
    let run (instructions : Option Nat) :=
      RecordedRun { classes, limits := { instructions, callDepth } } classFile method arguments
    (∀ any, ∃ halt recorder, run (some any) halt recorder) ∧
    ∀ halt recorder, run (some limit) halt recorder →
      halt.executed ≤ limit ∧
      (¬ halt.FailsWith Fault.IsInstructionLimit →
        (∀ halt' recorder', run (some more) halt' recorder' ↔ halt' = halt ∧ recorder' = recorder) ∧
        ∀ halt' recorder', run none halt' recorder' ↔ halt' = halt ∧ recorder' = recorder) ∧
      (halt.FailsWith Fault.IsInstructionLimit →
        (∃ location, halt = { outcome := .error { fault := .instructionLimit limit, location }, executed := limit }) ∧
        recorder.events.size = limit ∧
        ∀ halt' recorder', run (some more) halt' recorder' → recorder.events.toList <+: recorder'.events.toList) ∧
      ∀ halt' recorder' value, run none halt' recorder' → halt'.outcome = .ok value →
        ((∃ value, halt.outcome = .ok value) ↔ halt'.executed ≤ limit) := by
  intro run
  have hmore : ∀ found, some more = some found → limit ≤ found := fun _ h => Option.some.inj h ▸ hle
  have hnone : ∀ found, none = some found → limit ≤ found := nofun
  have hends (any : Nat) : ∃ halt recorder, run (some any) halt recorder := by
    obtain ⟨notices, halt, hhalts⟩ := @methodHalts_of_limit
      { classes, limits := { instructions := some any, callDepth } } any rfl (fun _ => 0) classFile method arguments
    exact ⟨halt, _, .of_methodHalts hhalts⟩
  refine ⟨hends, fun halt recorder hrun => ⟨?_, fun hnot => ⟨fun _ _ => hrun.iff_of_higher hmore hnot,
    fun _ _ => hrun.iff_of_higher hnone hnot⟩, fun hfails => ?_, fun halt' recorder' value hrun' hvalue => ?_⟩⟩
  · obtain ⟨clock, notices, hhalts, -⟩ := recordedRun_iff.1 hrun
    exact hhalts.executed_le_limit rfl
  · obtain ⟨longer, recorder', hlonger⟩ := hends more
    obtain ⟨hhalt, hsize, -, -⟩ := hrun.limit_reached hmore hfails hlonger
    exact ⟨hhalt, hsize, fun _ _ hrun' => (hrun.limit_reached hmore hfails hrun').2.2.1⟩
  · constructor
    · rintro ⟨_, hok⟩
      obtain ⟨rfl, -⟩ := (hrun.iff_of_higher hnone (Halt.not_failsWith hok)).1 hrun'
      obtain ⟨clock, notices, hhalts, -⟩ := recordedRun_iff.1 hrun
      exact hhalts.executed_le_limit rfl
    · intro hexecuted
      by_cases hfails : halt.FailsWith Fault.IsInstructionLimit
      · have hlt := (hrun.limit_reached hnone hfails hrun').2.2.2 value hvalue
        omega
      · obtain ⟨rfl, -⟩ := (hrun.iff_of_higher hnone hfails).1 hrun'
        exact ⟨value, hvalue⟩

/-- Method `g` of class `A` takes 4 instructions: a limit of 3 stops it in `g`, after the return of `f`, and under a
limit of 4 it succeeds. -/
theorem recordedRun_callingMethod :
    let run (instructions : Option Nat) :=
      RecordedRun { classes := callingMachine.classes, limits := { instructions, callDepth := 1024 } } callingClass
        callingMethod []
    (3 : Nat) ≤ 4 ∧
    ∃ stopped events ended recorder, run (some 3) stopped ⟨events⟩ ∧ run (some 4) ended recorder ∧
      stopped.FailsWith Fault.IsInstructionLimit ∧ stopped.executed = 3 ∧ events.size = 3 ∧
      events.toList <+: recorder.events.toList ∧ ended.outcome.toOption = some 1 ∧ ended.executed = 4 ∧
      run none ended recorder := by
  intro run
  obtain ⟨stopped, events, hstopped, hfails⟩ : ∃ stopped events, run (some 3) stopped ⟨events⟩ ∧
      stopped.FailsWith Fault.IsInstructionLimit :=
    ⟨_, _, ⟨fun _ => 0, 5, rfl⟩, _, rfl, trivial⟩
  obtain ⟨ended, recorder, hended, hvalue, hexecuted⟩ : ∃ ended recorder, run (some 4) ended recorder ∧
      ended.outcome = .ok 1 ∧ ended.executed = 4 :=
    ⟨_, _, ⟨fun _ => 0, 7, rfl⟩, rfl, rfl⟩
  have hshort := (recordedRun_under_limit callingMachine.classes 1024 callingClass callingMethod []
    (show 3 ≤ 4 by decide)).2 stopped ⟨events⟩ hstopped
  have hlong := (recordedRun_under_limit callingMachine.classes 1024 callingClass callingMethod []
    (Nat.le_refl 4)).2 ended recorder hended
  obtain ⟨-, -, hlimit, -⟩ := hshort
  obtain ⟨⟨location, hhalt⟩, hsize, hprefix⟩ := hlimit hfails
  refine ⟨by decide, stopped, events, ended, recorder, hstopped, hended, hfails, by rw [hhalt], hsize,
    hprefix ended recorder hended, by rw [hvalue]; rfl, hexecuted, ?_⟩
  exact ((hlong.2.1 (Halt.not_failsWith hvalue)).2 ended recorder).2 ⟨rfl, rfl⟩

end Machine

end ClassMachine
