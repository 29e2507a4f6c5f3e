/-
The limit on the depth bounds the frames and is otherwise not seen. A call adds a frame only where there are fewer
frames than the limit says, so there are never more, but for the one frame that every run has; an event tells how many
frames there are, and a run fails by this limit only where all of them are in use. Up to such a failure, a machine that
allows more frames comes to the same: a call looks at the depth only to compare it with the limit
(`agrees_of_depth`).
-/
import ClassMachine.Proofs.Machine.Isolation
import ClassMachine.Proofs.Machine.Obstacles
import ClassMachine.Proofs.Machine.Watching

namespace ClassMachine

/-- The limit on the depth is reached. -/
def Fault.IsCallDepthLimit : Fault → Prop
  | callDepthLimit _ => True
  | _ => False

namespace Machine

variable {machine : Machine} {clock : Nat → Nat}

/-! ## The number of frames -/

/-- A round adds a frame only where the limit leaves room for one. -/
theorem FrameStep.length_le {frames next : List Frame} (h : FrameStep machine frames next)
    (hlength : frames.length ≤ max 1 machine.limits.callDepth) : next.length ≤ max 1 machine.limits.callDepth := by
  cases h with
  | back =>
    simp only [List.length_cons] at hlength ⊢
    omega
  | step =>
    simp only [List.length_cons] at hlength ⊢
    omega
  | call _ _ hdepth =>
    simp only [List.length_cons] at hlength ⊢
    omega

theorem perform_event_depth {state : State} {instruction : Instruction} {event : Event}
    (h : event ∈ eventsOf (machine.perform state instruction).notices) :
    event.depth = state.stack.frames.length := by
  rw [CallStack.length_frames]
  unfold perform at h
  split at h
  · cases h
  · obtain rfl := List.mem_singleton.1 h
    rfl
  · obtain rfl := List.mem_singleton.1 h
    rfl

/-- An event tells how many frames there are when its instruction is executed. -/
theorem round_event_depth {elapsed : Nat} {state : State} {event : Event}
    (h : event ∈ eventsOf (machine.round elapsed state).notices) : event.depth = state.stack.frames.length := by
  have hcase := round_cases machine elapsed state
  generalize machine.round elapsed state = result at hcase h
  cases hcase with
  | finish => cases h
  | complete => cases h
  | limit => cases h
  | undecodable => cases h
  | perform => exact perform_event_depth h

theorem round_event_le {elapsed : Nat} {state : State} {event : Event}
    (h : event ∈ eventsOf (machine.round elapsed state).notices)
    (hstate : state.stack.frames.length ≤ max 1 machine.limits.callDepth) :
    1 ≤ event.depth ∧ event.depth ≤ max 1 machine.limits.callDepth := by
  rw [round_event_depth h]
  exact ⟨state.stack.length_frames_pos, hstate⟩

/-- There are never more frames than the limit says, and no event tells of more. -/
theorem Rounds.length_le {count : Nat} {first last : State} {notices : List Notice}
    (h : Rounds machine clock count first notices last)
    (hfirst : first.stack.frames.length ≤ max 1 machine.limits.callDepth) :
    last.stack.frames.length ≤ max 1 machine.limits.callDepth ∧
      ∀ event ∈ eventsOf notices, 1 ≤ event.depth ∧ event.depth ≤ max 1 machine.limits.callDepth := by
  induction h with
  | refl => exact ⟨hfirst, nofun⟩
  | @cons _ state _ _ told _ hround _ ih =>
    obtain ⟨hlast, hrest⟩ := ih ((round_frames hround).length_le hfirst)
    refine ⟨hlast, ?_⟩
    rw [eventsOf_append]
    refine List.forall_mem_append.2 ⟨fun event hevent => ?_, hrest⟩
    apply @round_event_le machine (clock state.executed) state event
    · rw [hround]
      exact hevent
    · exact hfirst

theorem Halts.event_le {count : Nat} {state : State} {notices : List Notice} {halt : Halt}
    (h : Halts machine clock count state notices halt)
    (hstate : state.stack.frames.length ≤ max 1 machine.limits.callDepth) :
    ∀ event ∈ eventsOf notices, 1 ≤ event.depth ∧ event.depth ≤ max 1 machine.limits.callDepth := by
  obtain ⟨m, last, told, final, -, hrounds, rfl, hround⟩ := h.last_round
  obtain ⟨hlast, htold⟩ := hrounds.length_le hstate
  rw [eventsOf_append]
  refine List.forall_mem_append.2 ⟨htold, fun event hevent => ?_⟩
  apply @round_event_le machine (clock last.executed) last event
  · rw [hround]
    exact hevent
  · exact hlast

/-! ## Failures by the limit -/

/-- Of the obstacles to a call only the depth is told as such, and with the limit. -/
theorem Obstructs.depth_reached {depth limit : Nat} {index : UInt16} {caller : Frame} {obstacle : Obstacle}
    {failure : Failure} (h : machine.Obstructs depth index caller obstacle failure)
    (hfault : failure.fault = .callDepthLimit limit) :
    limit = machine.limits.callDepth ∧ machine.limits.callDepth ≤ depth := by
  cases h with
  | depth hdepth => cases hfault; exact ⟨rfl, hdepth⟩
  | _ => cases hfault

theorem execute_depth_reached {depth limit : Nat} {instruction : Instruction} {frame after : Frame} {failure : Failure}
    (h : machine.execute depth instruction frame = .error failure after)
    (hfault : failure.fault = .callDepthLimit limit) :
    limit = machine.limits.callDepth ∧ machine.limits.callDepth ≤ depth := by
  rcases hcall : instruction.callIndex? with _ | index
  · -- an instruction that is no call raises no such fault, not even `invokestatic` with another operand
    obtain ⟨fault, rfl, hraises⟩ := failsOnly_execute machine depth hcall frame failure after h
    obtain rfl : fault = .callDepthLimit limit := hfault
    obtain ⟨opcode, operand⟩ := instruction
    cases opcode with
    | invokestatic =>
      cases operand with
      | index slot => cases hcall
      | _ => cases h
    | _ => exact hraises.elim
  · rw [execute_of_call machine depth hcall] at h
    rcases hfails : machine.call depth index frame with ⟨call, _⟩ | ⟨failed, _⟩
    · rw [hfails] at h
      cases h
    · rw [hfails] at h
      cases h
      obtain ⟨-, obstacle, hfirst⟩ := obstructsFirst_of_call hfails
      exact hfirst.1.depth_reached hfault

/-- A round that fails by the limit on the depth tells this limit, and there are at least as many frames. -/
theorem round_depth_reached {elapsed limit : Nat} {state : State} {halt : Halt} {notices : List Notice}
    {failure : Failure} (h : machine.round elapsed state = .halt halt notices)
    (hfails : halt.outcome = .error failure) (hfault : failure.fault = .callDepthLimit limit) :
    limit = machine.limits.callDepth ∧ machine.limits.callDepth ≤ state.stack.frames.length := by
  have hcase := round_cases machine elapsed state
  rw [h] at hcase
  generalize hresult : Round.halt halt notices = result at hcase
  cases hcase with
  | finish => cases hresult; cases hfails
  | complete => cases hresult
  | limit fault _ hcheck =>
    cases hresult
    cases hfails
    rcases check_fault_cases hcheck with ⟨_, rfl⟩ | rfl
    · cases hfault
    · cases hfault
  | undecodable => cases hresult; cases hfails; cases hfault
  | perform instruction =>
    rw [CallStack.length_frames]
    unfold perform at hresult
    rcases hexecute : machine.execute state.stack.depth instruction state.stack.top with
      ⟨_ | call, after⟩ | ⟨failed, after⟩
    · rw [hexecute] at hresult; cases hresult
    · rw [hexecute] at hresult; cases hresult
    · rw [hexecute] at hresult
      cases hresult
      cases hfails
      exact execute_depth_reached hexecute hfault

/-! ## Machines that allow more frames -/

/-- A machine agrees with one that allows more frames, but where it fails by its own limit. -/
theorem agrees_of_depth (classes : ClassTable) (instructions : Option Nat) {callDepth deeper : Nat}
    (hle : callDepth ≤ deeper) :
    Agrees Fault.IsCallDepthLimit ⟨classes, { instructions, callDepth }⟩
      ⟨classes, { instructions, callDepth := deeper }⟩ where
  call depth index caller := by
    have hsame : resolve ⟨classes, { instructions, callDepth := deeper }⟩ caller.classFile index =
        resolve ⟨classes, { instructions, callDepth }⟩ caller.classFile index := rfl
    rw [call_eq, call_eq, hsame]
    rcases resolve ⟨classes, { instructions, callDepth }⟩ caller.classFile index with fault | target
    · exact .inl rfl
    dsimp only
    by_cases hreached : callDepth ≤ depth
    · rw [if_pos hreached]
      exact .inr ⟨_, _, rfl, trivial⟩
    · have hdeeper : ¬ deeper ≤ depth := by omega
      rw [if_neg hreached, if_neg hdeeper]
      exact .inl rfl
  check executed elapsed elapsed' := by
    rw [check_of_no_deadline rfl, check_of_no_deadline rfl]
    exact .inl rfl

/-! ## Runs of methods -/

section

variable {σ : Type} {observer : Observer σ} {fuel : Nat} {classFile : ClassFile} {method : Member}
  {arguments : List Int32} {seen final : σ}

/-- A run starts with one frame, which every limit allows. -/
theorem length_ofEntry_le (frame : Frame) :
    (State.ofEntry frame).stack.frames.length ≤ max 1 machine.limits.callDepth :=
  Nat.le_max_left 1 _

/-- Wherever the run of a method is stopped, it has a frame, and no more frames than the limit says. -/
theorem StoppedCase.length_le {state : State}
    (h : StoppedCase machine observer clock fuel classFile method arguments seen (.error (state, final))) :
    1 ≤ state.stack.frames.length ∧ state.stack.frames.length ≤ max 1 machine.limits.callDepth := by
  cases h with
  | paused _ hrounds => exact ⟨state.stack.length_frames_pos, (hrounds.length_le (length_ofEntry_le _)).1⟩

/-- By then no event that a recorder has kept tells of more. -/
theorem StoppedCase.event_le {stopped : Except (State × Recorder) (Halt × Recorder)}
    (h : StoppedCase machine Recorder.hook.observer clock fuel classFile method arguments .empty stopped) :
    ∀ event ∈ (sight stopped).events, 1 ≤ event.depth ∧ event.depth ≤ max 1 machine.limits.callDepth := by
  intro event hevent
  rw [← Array.mem_toList_iff] at hevent
  cases h with
  | unentered => cases hevent
  | paused _ hrounds =>
    rw [sight, events_notifyAll_recorder] at hevent
    exact (hrounds.length_le (length_ofEntry_le _)).2 event hevent
  | finished _ _ hhalts =>
    rw [sight, events_notifyAll_recorder] at hevent
    exact hhalts.event_le (length_ofEntry_le _) event hevent

/-- A run that fails by the limit tells it, and before its last round there are just as many frames as it allows. -/
theorem StoppedCase.depth_reached {halt : Halt} {failure : Failure} {limit : Nat}
    (h : StoppedCase machine observer clock fuel classFile method arguments seen (.ok (halt, final)))
    (hfails : halt.outcome = .error failure) (hfault : failure.fault = .callDepthLimit limit) :
    limit = machine.limits.callDepth ∧ ∃ before state final' told,
      (Engine.stopping observer clock before).invoke machine classFile method arguments seen =
        .error (state, final') ∧
      machine.round (clock state.executed) state = .halt halt told ∧
      state.stack.frames.length = max 1 machine.limits.callDepth := by
  cases h with
  | unentered henter =>
    obtain ⟨error, -, rfl⟩ := enter_error henter
    cases hfails
    cases hfault
  | finished henter _ hhalts =>
    obtain ⟨before, last, told, ending, -, hrounds, -, hround⟩ := hhalts.last_round
    obtain ⟨hlimit, hreached⟩ := round_depth_reached hround hfails hfault
    have hstopped := stopping_of_rounds observer henter hrounds seen
    have hupper := (hrounds.length_le (length_ofEntry_le _)).1
    have hlower := Nat.max_le.2 ⟨last.stack.length_frames_pos, hreached⟩
    exact ⟨hlimit, before, last, _, ending, hstopped, hround, Nat.le_antisymm hupper hlower⟩

end

/-- The limit on the depth bounds the frames and is otherwise not seen. For all classes, methods and arguments, every
limit on instructions and no deadline, wherever a run is stopped: it has a frame and no more frames than the limit on
the depth says, at least one being allowed; the event of the next round has the number of frames for its depth; and so
the depths of all events that a recorder has kept lie within these bounds. A run that fails by this limit tells it, and
has just as many frames when it fails. A run that does not fail by it is, after any number of rounds, in the same state
or at the same end as under every higher limit, with the same events. -/
theorem frames_within_callDepth (classes : ClassTable) (instructions : Option Nat) (callDepth : Nat)
    (clock : Nat → Nat) (classFile : ClassFile) (method : Member) (arguments : List Int32) :
    let machine (callDepth : Nat) : Machine := { classes, limits := { instructions, callDepth } }
    let run (callDepth fuel : Nat) := (Engine.stopping Recorder.hook.observer clock fuel).invoke (machine callDepth)
      classFile method arguments .empty
    (∀ fuel state recorder, run callDepth fuel = .error (state, recorder) →
      (1 ≤ state.stack.frames.length ∧ state.stack.frames.length ≤ max 1 callDepth) ∧
      ∀ event ∈ eventsOf ((machine callDepth).round (clock state.executed) state).notices,
        event.depth = state.stack.frames.length) ∧
    (∀ fuel, ∀ event ∈ (sight (run callDepth fuel)).events, 1 ≤ event.depth ∧ event.depth ≤ max 1 callDepth) ∧
    (∀ fuel halt recorder failure limit, run callDepth fuel = .ok (halt, recorder) → halt.outcome = .error failure →
      failure.fault = .callDepthLimit limit →
      limit = callDepth ∧ ∃ before state recorder' told, run callDepth before = .error (state, recorder') ∧
        (machine callDepth).round (clock state.executed) state = .halt halt told ∧
        state.stack.frames.length = max 1 callDepth) ∧
    ∀ deeper fuel, callDepth ≤ deeper →
      (∀ halt recorder, run callDepth fuel = .ok (halt, recorder) → ¬ halt.FailsWith Fault.IsCallDepthLimit) →
      run deeper fuel = run callDepth fuel := by
  intro machine run
  have hcase (fuel : Nat) : StoppedCase (machine callDepth) Recorder.hook.observer clock fuel classFile method
      arguments .empty (run callDepth fuel) := stopping_cases ..
  refine ⟨fun fuel state recorder hrun => ⟨?_, fun event hevent => round_event_depth hevent⟩,
    fun fuel => (hcase fuel).event_le, fun fuel halt recorder failure limit hrun hfails hfault => ?_,
    fun deeper fuel hle hnot => ?_⟩
  · exact (hrun ▸ hcase fuel).length_le
  · exact (hrun ▸ hcase fuel).depth_reached hfails hfault
  · rcases (agrees_of_depth classes instructions hle).stopping Recorder.hook.observer clock clock fuel classFile method
      arguments .empty with heq | ⟨halt, recorder, hrun, hfails⟩
    · exact heq
    · exact absurd hfails (hnot halt recorder hrun)

/-- Method `g` of class `A` calls `f`: one frame at a time is too few, and with two of them, which it has after its
first round, it comes to the same end as with three. -/
theorem frames_within_callDepth_callingMethod :
    let run (callDepth fuel : Nat) := (Engine.stopping Recorder.hook.observer (fun _ => 0) fuel).invoke
      { classes := callingMachine.classes, limits := { instructions := none, callDepth } } callingClass callingMethod []
      .empty
    (∃ halt recorder before state recorder', run 1 1 = .ok (halt, recorder) ∧
      halt.FailsWith Fault.IsCallDepthLimit ∧ run 1 before = .error (state, recorder') ∧
      state.stack.frames.length = 1) ∧
    (∃ state recorder, run 2 1 = .error (state, recorder) ∧ state.stack.depth = 2 ∧
      state.stack.frames.length ≤ max 1 2) ∧
    (2 : Nat) ≤ 3 ∧ ∃ halt recorder, run 3 6 = .ok (halt, recorder) ∧ halt.outcome.toOption = some 1 := by
  intro run
  refine ⟨?_, ?_, by decide, ?_⟩
  · obtain ⟨halt, recorder, failure, hrun, hfails, hfault⟩ : ∃ halt recorder failure, run 1 1 = .ok (halt, recorder) ∧
        halt.outcome = .error failure ∧ failure.fault = .callDepthLimit 1 :=
      ⟨_, _, _, rfl, rfl, rfl⟩
    obtain ⟨-, -, hlimit, -⟩ := frames_within_callDepth callingMachine.classes none 1 (fun _ => 0) callingClass
      callingMethod []
    obtain ⟨-, before, state, recorder', told, hbefore, -, hframes⟩ :=
      hlimit 1 halt recorder failure 1 hrun hfails hfault
    exact ⟨halt, recorder, before, state, recorder', hrun, ⟨failure, hfails, hfault ▸ trivial⟩, hbefore, hframes⟩
  · obtain ⟨state, recorder, hrun, hdepth⟩ : ∃ state recorder, run 2 1 = .error (state, recorder) ∧
        state.stack.depth = 2 :=
      ⟨_, _, rfl, rfl⟩
    obtain ⟨hframes, -⟩ := frames_within_callDepth callingMachine.classes none 2 (fun _ => 0) callingClass
      callingMethod []
    exact ⟨state, recorder, hrun, hdepth, (hframes 1 state recorder hrun).1.2⟩
  · obtain ⟨halt, recorder, hrun, hvalue⟩ : ∃ halt recorder, run 2 6 = .ok (halt, recorder) ∧ halt.outcome = .ok 1 :=
      ⟨_, _, rfl, rfl⟩
    have hnot : ∀ halt' recorder', run 2 6 = .ok (halt', recorder') → ¬ halt'.FailsWith Fault.IsCallDepthLimit := by
      intro halt' recorder' hrun'
      rw [hrun] at hrun'
      cases hrun'
      exact Halt.not_failsWith hvalue
    obtain ⟨-, -, -, hdeeper⟩ := frames_within_callDepth callingMachine.classes none 2 (fun _ => 0) callingClass
      callingMethod []
    exact ⟨halt, recorder, (hdeeper 3 6 (by decide) hnot).trans hrun, by rw [hvalue]; rfl⟩

end Machine

end ClassMachine
