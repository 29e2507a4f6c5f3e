/-
The trace of a run. Every instruction that is executed is one event, so a recorder has as many events as the run has
executed instructions; only an instruction that fails is counted and not recorded, and no run goes on behind one. Main
statement (`trace_accounts_and_nests`): this, and that the events are nested, for every run and wherever it is stopped.
-/
import ClassMachine.Proofs.Machine.Budget
import ClassMachine.Proofs.Machine.Nesting
import ClassMachine.Proofs.Machine.Watching

namespace ClassMachine

/-! ## Instructions that fail -/

/-- There is no instruction at the place reached. -/
def Fault.IsUndecodable : Fault → Prop
  | noInstruction _ => True
  | _ => False

theorem Opcode.Raises.not_isUndecodable {opcode : Opcode} {fault : Fault} (h : opcode.Raises fault) :
    ¬ fault.IsUndecodable := by
  intro hundecodable
  cases fault with
  | noInstruction => cases opcode <;> exact h.elim
  | _ => exact hundecodable.elim

namespace Machine

variable {machine : Machine} {clock : Nat → Nat}

/-- The instruction that the top frame has reached can be read and may be executed, but fails. -/
structure FailsToExecute (machine : Machine) (elapsed : Nat) (state : State) (instruction : Instruction) : Prop where
  allowed : machine.limits.check state.executed elapsed = .ok ()
  decode_eq : Instruction.decode state.stack.top.code.bytes state.stack.top.pc = .ok instruction
  fails : ∃ failure after, machine.execute state.stack.depth instruction state.stack.top = .error failure after

/-- The run ends between two instructions: with a value, by the limit on instructions, or where there is none to
read. -/
def Halt.IsBetween (halt : Halt) : Prop :=
  (∃ value, halt.outcome = .ok value) ∨ halt.FailsWith Fault.IsInstructionLimit ∨ halt.FailsWith Fault.IsUndecodable

theorem FailsToExecute.round_eq {elapsed : Nat} {state : State} {instruction : Instruction}
    (h : machine.FailsToExecute elapsed state instruction) :
    ∃ halt, machine.round elapsed state = .halt halt [] ∧ halt.executed = state.executed + 1 ∧ ¬ halt.IsBetween := by
  obtain ⟨failure, after, hexecute⟩ := h.fails
  refine ⟨{ outcome := .error (failure.locate state.stack.top.location), executed := state.executed + 1 }, ?_, rfl, ?_⟩
  · rw [round_of_decode h.allowed h.decode_eq]
    unfold perform
    rw [hexecute]
    rfl
  · have hfault : ¬ failure.fault.IsInstructionLimit ∧ ¬ failure.fault.IsUndecodable := by
      rcases execute_error hexecute with ⟨fault, rfl, hraises⟩ | ⟨index, -, target, error, -, -, rfl⟩
      · exact ⟨hraises.not_isInstructionLimit, hraises.not_isUndecodable⟩
      · exact ⟨id, id⟩
    rintro (⟨value, hvalue⟩ | ⟨_, hfails, hkind⟩ | ⟨_, hfails, hkind⟩)
    · cases hvalue
    · cases hfails
      exact hfault.1 hkind
    · cases hfails
      exact hfault.2 hkind

theorem isInstructionLimit_of_check (hdeadline : machine.limits.deadline = none) {executed elapsed : Nat}
    {fault : Fault} (h : machine.limits.check executed elapsed = .error fault) : fault.IsInstructionLimit := by
  rw [check_of_no_deadline hdeadline] at h
  unfold Limits.checkInstructions at h
  split at h
  · split at h <;> cases h
    trivial
  · cases h

/-- The last round of a run tells no event. It ends the run between two instructions, or in one that fails. -/
theorem round_ends (hdeadline : machine.limits.deadline = none) {elapsed : Nat} {state : State} {halt : Halt}
    {notices : List Notice} (h : machine.round elapsed state = .halt halt notices) :
    eventsOf notices = [] ∧ ((halt.IsBetween ∧ halt.executed = state.executed) ∨
      ∃ instruction, machine.FailsToExecute elapsed state instruction) := by
  have hcase := round_cases machine elapsed state
  rw [h] at hcase
  generalize hresult : Round.halt halt notices = result at hcase
  cases hcase with
  | finish => cases hresult; exact ⟨rfl, .inl ⟨.inl ⟨_, rfl⟩, rfl⟩⟩
  | complete => cases hresult
  | limit fault _ hcheck =>
    cases hresult
    exact ⟨rfl, .inl ⟨.inr (.inl ⟨_, rfl, isInstructionLimit_of_check hdeadline hcheck⟩), rfl⟩⟩
  | undecodable error => cases hresult; exact ⟨rfl, .inl ⟨.inr (.inr ⟨_, rfl, trivial⟩), rfl⟩⟩
  | perform instruction _ hcheck hdecode =>
    unfold perform at hresult
    rcases hexecute : machine.execute state.stack.depth instruction state.stack.top with
      ⟨_ | call, after⟩ | ⟨failure, after⟩
    · rw [hexecute] at hresult; cases hresult
    · rw [hexecute] at hresult; cases hresult
    · rw [hexecute] at hresult
      cases hresult
      exact ⟨rfl, .inr ⟨instruction, hcheck, hdecode, failure, after, hexecute⟩⟩

/-- A run that ends has told all its events before its last round, and by then it has executed what it has told. -/
theorem Halts.accounts (hdeadline : machine.limits.deadline = none) {n : Nat} {entry : Frame} {notices : List Notice}
    {halt : Halt} (h : Halts machine clock n (.ofEntry entry) notices halt) :
    ∃ last, ReachedFrom machine clock entry (eventsOf notices) last ∧
      ((halt.IsBetween ∧ halt.executed = (eventsOf notices).length) ∨
        ∃ instruction, machine.FailsToExecute (clock last.executed) last instruction) := by
  obtain ⟨m, last, told, final, -, hrounds, rfl, hround⟩ := h.last_round
  obtain ⟨hquiet, hends⟩ := round_ends hdeadline hround
  have hcount : last.executed = 0 + (eventsOf told).length := hrounds.executed_eq
  rw [eventsOf_append, hquiet, List.append_nil]
  refine ⟨last, ⟨m, told, hrounds, rfl⟩, hends.imp_left fun ⟨hbetween, hexecuted⟩ => ⟨hbetween, ?_⟩⟩
  omega

/-- A run that reaches an instruction that fails ends there: the instruction is counted, but it is not told. -/
theorem Halts.accounts_failing {n : Nat} {entry : Frame} {notices : List Notice} {halt : Halt}
    (h : Halts machine clock n (.ofEntry entry) notices halt) {events : List Event} {state : State}
    {instruction : Instruction} (hreached : ReachedFrom machine clock entry events state)
    (hfails : machine.FailsToExecute (clock state.executed) state instruction) :
    eventsOf notices = events ∧ halt.executed = events.length + 1 ∧ ¬ halt.IsBetween := by
  obtain ⟨m, told, hrounds, rfl⟩ := hreached
  obtain ⟨k, more, -, rfl, hrest⟩ := h.after_rounds hrounds
  obtain ⟨ending, hround, hexecuted, hbetween⟩ := hfails.round_eq
  obtain ⟨-, rfl, rfl⟩ := hrest.unique (.last hround)
  have hcount : state.executed = 0 + (eventsOf told).length := hrounds.executed_eq
  refine ⟨?_, by omega, hbetween⟩
  rw [eventsOf_append, eventsOf_nil, List.append_nil]

/-! ## The trace of a run -/

section

variable {classFile : ClassFile} {method : Member} {arguments : List Int32}

/-- The states in which a run can be stopped when a recorder has kept these events. -/
def StopsAt (machine : Machine) (clock : Nat → Nat) (classFile : ClassFile) (method : Member)
    (arguments : List Int32) (events : List Event) (state : State) : Prop :=
  ∃ fuel, (Engine.stopping Recorder.hook.observer clock fuel).invoke machine classFile method arguments .empty =
    .error (state, ⟨events.toArray⟩)

theorem stopsAt_iff {entry : Frame} (henter : Frame.enter classFile method arguments true = .ok entry)
    {events : List Event} {state : State} :
    StopsAt machine clock classFile method arguments events state ↔ ReachedFrom machine clock entry events state := by
  constructor
  · rintro ⟨fuel, hstopped⟩
    have hcase := stopping_cases machine Recorder.hook.observer clock fuel classFile method arguments .empty
    generalize hresult : (Engine.stopping Recorder.hook.observer clock fuel).invoke machine classFile method arguments
      .empty = result at hcase hstopped
    cases hcase with
    | unentered => cases hstopped
    | finished => cases hstopped
    | @paused frame notices state' henter' hrounds =>
      cases henter.symm.trans henter'
      obtain ⟨rfl, hrecorder⟩ := Prod.mk.inj (Except.error.inj hstopped)
      exact ⟨fuel, notices, hrounds, (notifyAll_recorder_iff _ _).1 hrecorder.symm⟩
  · rintro ⟨fuel, notices, hrounds, rfl⟩
    refine ⟨fuel, ?_⟩
    rw [stopping_of_rounds Recorder.hook.observer henter hrounds .empty]
    rw [← (notifyAll_recorder_iff (.started entry.site arguments :: notices) ⟨(eventsOf notices).toArray⟩).2 rfl]

theorem not_stopsAt_of_unentered {fault : Fault} (henter : Frame.enter classFile method arguments true = .error fault)
    {events : List Event} {state : State} : ¬ StopsAt machine clock classFile method arguments events state := by
  rintro ⟨fuel, hstopped⟩
  unfold Engine.invoke at hstopped
  rw [henter] at hstopped
  cases hstopped

theorem nested_nil (Reached : List Event → State → Prop) : Nested machine clock Reached [] where
  first _ _ hevents := nomatch hevents
  deeper before _ _ _ hevents := by simp at hevents
  onward before _ _ _ _ hevents := by simp at hevents

/-- Wherever a run is stopped, what a recorder has kept is nested. -/
theorem StoppedCase.nested (hdeadline : machine.limits.deadline = none) {fuel : Nat}
    {stopped : Except (State × Recorder) (Halt × Recorder)}
    (h : StoppedCase machine Recorder.hook.observer clock fuel classFile method arguments .empty stopped) :
    Nested machine clock (StopsAt machine clock classFile method arguments) (sight stopped).events.toList := by
  have hreached {entry : Frame} {events : List Event} {state : State}
      (henter : Frame.enter classFile method arguments true = .ok entry)
      (hreached : ReachedFrom machine clock entry events state) :
      Nested machine clock (StopsAt machine clock classFile method arguments) events := by
    obtain ⟨n, notices, hrounds, rfl⟩ := hreached
    obtain ⟨code, -, hentry⟩ := Frame.enter_eq_ok henter
    exact (hrounds.nested (by rw [hentry])).mono fun events state => (stopsAt_iff henter).2
  cases h with
  | unentered => exact nested_nil _
  | paused henter hrounds =>
    rw [sight, events_notifyAll_recorder]
    exact hreached henter ⟨_, _, hrounds, rfl⟩
  | finished henter _ hhalts =>
    obtain ⟨last, hlast, -⟩ := hhalts.accounts hdeadline
    rw [sight, events_notifyAll_recorder]
    exact hreached henter hlast

/-- A run that has ended was never entered, and has recorded nothing, or has recorded what its rounds told. -/
theorem StoppedCase.ended {fuel : Nat} {halt : Halt} {recorder : Recorder}
    (h : StoppedCase machine Recorder.hook.observer clock fuel classFile method arguments .empty
      (.ok (halt, recorder))) :
    (∃ fault, Frame.enter classFile method arguments true = .error fault ∧ recorder.events.size = halt.executed) ∨
      ∃ entry count notices, Frame.enter classFile method arguments true = .ok entry ∧
        Halts machine clock count (.ofEntry entry) notices halt ∧ eventsOf notices = recorder.events.toList := by
  generalize hresult : Except.ok (halt, recorder) = result at h
  cases h with
  | unentered henter => cases hresult; exact .inl ⟨_, henter, rfl⟩
  | paused => cases hresult
  | finished henter _ hhalts =>
    cases hresult
    refine .inr ⟨_, _, _, henter, hhalts, ?_⟩
    rw [events_notifyAll_recorder]
    rfl

end

/-- The trace accounts for every instruction, and its depths are nested. For all classes, methods and arguments, all
limits on instructions and depth and no deadline. A run that ends with a value, because its method cannot be entered,
by the limit on instructions or where there is no instruction to read has recorded as many events as it has executed
instructions. A run that reaches an instruction that fails ends there; the instruction is counted, and what is recorded
is what was recorded before it. There are no other runs that end. Wherever a run is stopped, its events are nested: the
first is of one frame and at the front of the code; one is deeper than the one before it only behind an `invokestatic`,
by one frame and at the front of the code; and the next event that is not deeper than a given one is of the same frame,
at the place to which the instruction leads, or of fewer frames, and then that frame is done. -/
theorem trace_accounts_and_nests (classes : ClassTable) (instructions : Option Nat) (callDepth : Nat)
    (clock : Nat → Nat) (classFile : ClassFile) (method : Member) (arguments : List Int32) :
    let machine : Machine := { classes, limits := { instructions, callDepth } }
    let run (fuel : Nat) := (Engine.stopping Recorder.hook.observer clock fuel).invoke machine classFile method
      arguments .empty
    let stopsAt := StopsAt machine clock classFile method arguments
    (∀ fuel halt recorder, run fuel = .ok (halt, recorder) →
      ((∃ fault, Frame.enter classFile method arguments true = .error fault) ∨ halt.IsBetween →
        recorder.events.size = halt.executed) ∧
      (∀ events state instruction, stopsAt events state →
        machine.FailsToExecute (clock state.executed) state instruction →
        recorder.events.toList = events ∧ recorder.events.size + 1 = halt.executed) ∧
      ((∃ fault, Frame.enter classFile method arguments true = .error fault) ∨ halt.IsBetween ∨
        ∃ state instruction, stopsAt recorder.events.toList state ∧
          machine.FailsToExecute (clock state.executed) state instruction)) ∧
    ∀ fuel, Nested machine clock stopsAt (sight (run fuel)).events.toList := by
  intro machine run stopsAt
  have hcase (fuel : Nat) : StoppedCase machine Recorder.hook.observer clock fuel classFile method arguments .empty
      (run fuel) := stopping_cases ..
  refine ⟨fun fuel halt recorder hrun => ?_, fun fuel => (hcase fuel).nested rfl⟩
  rcases (hrun ▸ hcase fuel).ended with ⟨fault, henter, hsize⟩ | ⟨entry, count, notices, henter, hhalts, hevents⟩
  · refine ⟨fun _ => hsize, fun events state instruction hstops => ?_, .inl ⟨fault, henter⟩⟩
    exact absurd hstops (not_stopsAt_of_unentered henter)
  have hsize : recorder.events.size = (eventsOf notices).length := by
    rw [hevents, Array.length_toList]
  obtain ⟨last, hlast, hlastRound⟩ := hhalts.accounts rfl
  refine ⟨fun hends => ?_, fun events state instruction hstops hfails => ?_, .inr ?_⟩
  · rcases hlastRound with ⟨-, hexecuted⟩ | ⟨instruction, hfails⟩
    · rw [hsize, hexecuted]
    · -- a run whose last instruction fails ends in none of the ways in question
      obtain ⟨-, -, hnot⟩ := hhalts.accounts_failing hlast hfails
      rcases hends with ⟨fault, hunentered⟩ | hbetween
      · rw [henter] at hunentered
        cases hunentered
      · exact absurd hbetween hnot
  · obtain ⟨hsame, hexecuted, -⟩ := hhalts.accounts_failing ((stopsAt_iff henter).1 hstops) hfails
    rw [hexecuted, hsize, ← hevents, hsame]
    exact ⟨rfl, rfl⟩
  · rcases hlastRound with ⟨hbetween, -⟩ | ⟨instruction, hfails⟩
    · exact .inl hbetween
    · exact .inr ⟨last, instruction, (stopsAt_iff henter).2 (hevents ▸ hlast), hfails⟩

/-- Method `g` of class `A` calls `f`. With frames for both it executes and records four instructions, of which the
first and the last are of one frame, the last at the place behind the call. With one frame at a time the call fails: it
is counted, and nothing is recorded. -/
theorem trace_accounts_and_nests_callingMethod :
    let machine (callDepth : Nat) : Machine :=
      { classes := callingMachine.classes, limits := { instructions := none, callDepth } }
    let run (callDepth fuel : Nat) := (Engine.stopping Recorder.hook.observer (fun _ => 0) fuel).invoke
      (machine callDepth) callingClass callingMethod [] .empty
    (∃ halt recorder call first second last, run 2 6 = .ok (halt, recorder) ∧ halt.outcome.toOption = some 1 ∧
      recorder.events.size = halt.executed ∧ recorder.events.toList = [call, first, second, last] ∧
      [call, first, second, last].map (fun event => (event.depth, event.pc)) = [(1, 0), (2, 0), (2, 1), (1, 3)] ∧
      call.instruction.opcode = .invokestatic ∧ first.pc = 0 ∧
      ∃ before after, call.TellsOf before ∧ last.TellsOf after ∧
        Frame.SameActivation before.stack.top after.stack.top ∧
        before.stack.top.placeAfter call.instruction = some 3) ∧
    ∃ halt recorder state instruction, run 1 1 = .ok (halt, recorder) ∧ run 1 0 = .error (state, .empty) ∧
      (machine 1).FailsToExecute 0 state instruction ∧ recorder.events.toList = [] ∧
      recorder.events.size + 1 = halt.executed := by
  intro machine run
  refine ⟨?_, ?_⟩
  · obtain ⟨halt, recorder, call, first, second, last, hrun, hvalue, hevents, hplaces⟩ :
        ∃ halt recorder call first second last, run 2 6 = .ok (halt, recorder) ∧ halt.outcome = .ok 1 ∧
        recorder.events.toList = [call, first, second, last] ∧
        [call, first, second, last].map (fun event => (event.depth, event.pc)) = [(1, 0), (2, 0), (2, 1), (1, 3)] :=
      ⟨_, _, _, _, _, _, rfl, rfl, rfl, rfl⟩
    obtain ⟨haccounts, hnested⟩ := trace_accounts_and_nests callingMachine.classes none 2 (fun _ => 0) callingClass
      callingMethod []
    have hsize := (haccounts 6 halt recorder hrun).1 (.inr (.inl ⟨1, hvalue⟩))
    have hnest : Nested (machine 2) (fun _ => 0) (StopsAt (machine 2) (fun _ => 0) callingClass callingMethod [])
        (sight (run 2 6)).events.toList := hnested 6
    rw [hrun, sight, hevents] at hnest
    have hdepths := hplaces
    simp only [List.map_cons, List.map_nil, List.cons.injEq, Prod.mk.injEq, and_true] at hdepths
    obtain ⟨⟨hcall, -⟩, ⟨hfirst, -⟩, ⟨hsecond, -⟩, hlast, hpc⟩ := hdepths
    obtain ⟨hopcode, -, hzero⟩ := hnest.deeper [] call first [second, last] rfl (by omega)
    have hinner : ∀ inner ∈ [first, second], call.depth < inner.depth := by
      simp only [List.forall_mem_cons, List.not_mem_nil, false_implies, implies_true, and_true]
      omega
    obtain ⟨before, after, -, hbefore, -, hafter, hgoes⟩ :=
      hnest.onward [] call [first, second] last [] rfl hinner (by omega)
    cases hgoes with
    | same _ _ hsame hplace =>
      rw [hpc] at hplace
      exact ⟨halt, recorder, call, first, second, last, hrun, by rw [hvalue]; rfl, hsize, hevents, hplaces, hopcode,
        hzero, before, after, hbefore, hafter, hsame, hplace⟩
    | done hdepth => omega
  · obtain ⟨halt, recorder, state, failure, after, hrun, hstopped, hdecode, hexecute⟩ :
        ∃ halt recorder state failure after, run 1 1 = .ok (halt, recorder) ∧ run 1 0 = .error (state, .empty) ∧
        Instruction.decode state.stack.top.code.bytes state.stack.top.pc = .ok ⟨.invokestatic, .index 6⟩ ∧
        (machine 1).execute state.stack.depth ⟨.invokestatic, .index 6⟩ state.stack.top = .error failure after :=
      ⟨_, _, _, _, _, rfl, rfl, rfl, rfl⟩
    have hfails : (machine 1).FailsToExecute 0 state ⟨.invokestatic, .index 6⟩ :=
      ⟨rfl, hdecode, failure, after, hexecute⟩
    obtain ⟨haccounts, -⟩ := trace_accounts_and_nests callingMachine.classes none 1 (fun _ => 0) callingClass
      callingMethod []
    obtain ⟨hevents, hexecuted⟩ := (haccounts 1 halt recorder hrun).2.1 [] state _ ⟨0, hstopped⟩ hfails
    exact ⟨halt, recorder, state, _, hrun, hstopped, hfails, hevents, hexecuted⟩

end Machine

end ClassMachine
