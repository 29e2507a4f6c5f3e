/-
What a call keeps. A call takes its arguments off the stack of the caller and adds one frame; from then on, as long
as there are more frames than before the call, the caller and all frames below it stay as the call left them, and the
method called keeps its locals, whatever it executes and however deep it calls (`FrameStep.keeps_base`). Once it is
done, the caller goes on behind the call with the value that was yielded, if the result is of type `int`.

What a round does to the frames is said once, in `FrameStep`.
-/
import ClassMachine.Proofs.Machine.Activation
import ClassMachine.Proofs.Machine.Recursion
import ClassMachine.Proofs.Machine.Rounds

namespace ClassMachine

open ClassMachine.Frame

theorem Frame.handed_sameActivation (caller done : Frame) : SameActivation caller (caller.handed done) := by
  obtain ⟨stack, hhanded⟩ := caller.handed_eq done
  rw [hhanded]
  exact ⟨rfl, rfl, rfl, rfl, rfl⟩

namespace Machine

/-! ## The frames in a round -/

/-- What a round that goes on can do to the frames, the latest call first. -/
inductive FrameStep (machine : Machine) : List Frame → List Frame → Prop
  /-- A method that was called is done. -/
  | back {done caller : Frame} {below : List Frame} (hdone : done.isDone = true) :
      FrameStep machine (done :: caller :: below) (caller.handed done :: below)
  /-- The method on top executes an instruction that is no call. -/
  | step {frame after : Frame} {below : List Frame} (instruction : Instruction) (hdone : frame.isDone = false)
      (hdecode : Instruction.decode frame.code.bytes frame.pc = .ok instruction)
      (hmoves : Moves instruction frame after) :
      FrameStep machine (frame :: below) (after :: below)
  | call {frame : Frame} {below : List Frame} {index : UInt16} (hdone : frame.isDone = false)
      (hdecode : Instruction.decode frame.code.bytes frame.pc = .ok ⟨.invokestatic, .index index⟩)
      (hdepth : below.length + 1 < machine.limits.callDepth) (dispatch : Dispatch machine frame index) :
      FrameStep machine (frame :: below) (dispatch.callee :: dispatch.waiting :: below)

theorem round_frames {machine : Machine} {elapsed : Nat} {state next : State} {notices : List Notice}
    (h : machine.round elapsed state = .next next notices) :
    FrameStep machine state.stack.frames next.stack.frames := by
  have hcase := round_cases machine elapsed state
  rw [h] at hcase
  generalize hresult : Round.next next notices = result at hcase
  cases hcase with
  | finish => cases hresult
  | limit => cases hresult
  | undecodable => cases hresult
  | complete callers hdone hpop =>
    cases hresult
    rw [CallStack.frames_of_pop? hpop, CallStack.frames_resume]
    exact .back hdone
  | perform instruction hdone _ hdecode =>
    unfold perform at hresult
    rcases hexecute : machine.execute state.stack.depth instruction state.stack.top with
      ⟨_ | call, after⟩ | ⟨failure, after⟩
    · rw [hexecute] at hresult
      cases hresult
      obtain ⟨-, hmoves⟩ | ⟨_, _, _, _, hcall, -⟩ := execute_eq_ok hexecute
      · exact .step instruction hdone hdecode hmoves
      · cases hcall
    · rw [hexecute] at hresult
      cases hresult
      rw [state.stack.depth_eq] at hexecute
      obtain ⟨hnone, -⟩ | ⟨index, rfl, hdepth, dispatch, hcall, rfl⟩ := execute_eq_ok hexecute
      · cases hnone
      · cases hcall
        exact .call hdone hdecode hdepth dispatch
    · rw [hexecute] at hresult
      cases hresult

variable {machine : Machine} {clock : Nat → Nat}

/-- What holds of an activation as long as it lasts, and of all methods that are called, holds of all frames if it does
at the start. -/
theorem FrameStep.forall_mem {P : Frame → Prop}
    (hlasts : ∀ {before after}, SameActivation before after → P before → P after)
    (hcallee : ∀ {caller index} (dispatch : Dispatch machine caller index), P dispatch.callee)
    {frames next : List Frame} (h : FrameStep machine frames next) (hall : ∀ frame ∈ frames, P frame) :
    ∀ frame ∈ next, P frame := by
  cases h with
  | @back done caller below _ =>
    obtain ⟨-, hcaller, hbelow⟩ := by simpa only [List.forall_mem_cons] using hall
    exact List.forall_mem_cons.2 ⟨hlasts (caller.handed_sameActivation done) hcaller, hbelow⟩
  | step instruction _ _ hmoves =>
    obtain ⟨hframe, hbelow⟩ := List.forall_mem_cons.1 hall
    exact List.forall_mem_cons.2 ⟨hlasts hmoves.sameActivation hframe, hbelow⟩
  | call _ _ _ dispatch =>
    obtain ⟨hframe, hbelow⟩ := List.forall_mem_cons.1 hall
    refine List.forall_mem_cons.2 ⟨hcallee dispatch, List.forall_mem_cons.2 ⟨?_, hbelow⟩⟩
    exact hlasts dispatch.waiting_sameActivation hframe

/-! ## Frames that stay -/

/-- The frames end with those of `base`, and right above them is the activation of `callee`. -/
def RunsOn (callee : Frame) (base frames : List Frame) : Prop :=
  ∃ above activation, frames = above ++ activation :: base ∧ SameActivation callee activation

/-- A round after which there are still more frames than in `base` keeps these and the activation above them. -/
theorem FrameStep.keeps_base {callee : Frame} {base frames next : List Frame} (h : FrameStep machine frames next)
    (hruns : RunsOn callee base frames) (hdeep : base.length < next.length) : RunsOn callee base next := by
  obtain ⟨above, activation, hframes, hsame⟩ := hruns
  rcases above with _ | ⟨top, above⟩
  · -- the activation is on top
    cases h with
    | back =>
      cases hframes
      simp at hdeep
    | @step _ after _ instruction _ _ hmoves =>
      cases hframes
      exact ⟨[], after, rfl, hsame.trans hmoves.sameActivation⟩
    | @call _ _ _ _ _ _ dispatch =>
      cases hframes
      exact ⟨[dispatch.callee], dispatch.waiting, rfl, hsame.trans dispatch.waiting_sameActivation⟩
  · cases h with
    | @back done caller below hdone =>
      obtain ⟨rfl, hbelow⟩ := List.cons.inj hframes
      rcases above with _ | ⟨second, above⟩
      · -- the frame right above the activation goes, so the activation may get a value
        obtain ⟨rfl, rfl⟩ := List.cons.inj hbelow
        exact ⟨[], caller.handed done, rfl, hsame.trans (caller.handed_sameActivation done)⟩
      · obtain ⟨rfl, rfl⟩ := List.cons.inj hbelow
        exact ⟨caller.handed done :: above, activation, rfl, hsame⟩
    | @step _ after _ instruction =>
      cases hframes
      exact ⟨after :: above, activation, rfl, hsame⟩
    | @call _ _ _ _ _ _ dispatch =>
      cases hframes
      exact ⟨dispatch.callee :: dispatch.waiting :: above, activation, rfl, hsame⟩

/-- A round after which there are no more frames than in `base` takes the activation above them away, which is done
and on top. -/
theorem FrameStep.leaves {callee : Frame} {base frames next : List Frame} (h : FrameStep machine frames next)
    (hruns : RunsOn callee base frames) (hshallow : next.length ≤ base.length) :
    ∃ done caller below, base = caller :: below ∧ frames = done :: base ∧ done.isDone = true ∧
      SameActivation callee done ∧ next = caller.handed done :: below := by
  obtain ⟨above, activation, rfl, hsame⟩ := hruns
  generalize hframes : above ++ activation :: base = frames at h
  have hlength : frames.length = above.length + base.length + 1 := by
    rw [← hframes]
    simp
    omega
  cases h with
  | @back done caller below hdone =>
    simp only [List.length_cons] at hlength hshallow
    obtain rfl : above = [] := List.eq_nil_of_length_eq_zero (by omega)
    obtain ⟨rfl, rfl⟩ := List.cons.inj hframes
    exact ⟨activation, caller, below, rfl, rfl, hdone, hsame, rfl⟩
  | step =>
    simp only [List.length_cons] at hlength hshallow
    omega
  | call =>
    simp only [List.length_cons] at hlength hshallow
    omega

/-- Only a call adds a frame. -/
theorem FrameStep.call_of_longer {frame : Frame} {below next : List Frame} (h : FrameStep machine (frame :: below) next)
    (hlonger : below.length + 1 < next.length) :
    ∃ (index : UInt16) (dispatch : Dispatch machine frame index),
      Instruction.decode frame.code.bytes frame.pc = .ok ⟨.invokestatic, .index index⟩ ∧
      next = dispatch.callee :: dispatch.waiting :: below := by
  cases h with
  | back =>
    simp only [List.length_cons] at hlonger
    omega
  | step =>
    simp only [List.length_cons] at hlonger
    omega
  | @call _ _ index _ hdecode _ dispatch => exact ⟨index, dispatch, hdecode, rfl⟩

/-- Rounds lead from one state to another, and on the way there are always more than `floor` frames. -/
inductive Above (machine : Machine) (clock : Nat → Nat) (floor : Nat) (first : State) : State → Prop
  | refl (hdeep : floor < first.stack.depth) : Above machine clock floor first first
  | next {state next : State} {notices : List Notice} (h : Above machine clock floor first state)
      (hround : machine.round (clock state.executed) state = .next next notices)
      (hdeep : floor < next.stack.depth) : Above machine clock floor first next

/-- As long as there are more frames than in `base`, these stay as they are. -/
theorem Above.keeps_base {first later : State} {callee : Frame} {base : List Frame}
    (h : Above machine clock base.length first later) (hruns : RunsOn callee base first.stack.frames) :
    RunsOn callee base later.stack.frames := by
  induction h with
  | refl => exact hruns
  | next _ hround hdeep ih =>
    rw [← CallStack.length_frames] at hdeep
    exact (round_frames hround).keeps_base ih hdeep

/-! ## Calls -/

/-- The caller gets the value of the method it called as the descriptor says. -/
theorem Dispatch.handed_waiting {caller : Frame} {index : UInt16} (dispatch : Dispatch machine caller index)
    {done : Frame} (h : SameActivation dispatch.callee done) :
    dispatch.waiting.handed done = dispatch.resumed done.returnValue := by
  have hreturns : done.returnsValue = (dispatch.target.descriptor.result != .void) := h.returnsValue
  unfold Frame.handed Dispatch.resumed
  rw [hreturns]
  cases dispatch.target.descriptor.result with
  | int =>
    rw [← OperandStack.push_ofValues]
    rfl
  | void =>
    rw [List.append_nil]
    rfl

/-- A call isolates the caller, in whatever state, for all classes and limits. A round that adds a frame executes an
`invokestatic`: the method called starts with the last values of the caller's stack as its locals, and the caller
waits behind the call without them. While there are more frames than before the call, the caller and all frames below
it stay exactly so, and the method called keeps its locals. The round after which there are no more frames than before
the call finds that method done and on top, and the caller goes on behind the call with its own locals and with the
value yielded on its stack, if the descriptor says `int`. -/
theorem caller_isolated (machine : Machine) (clock : Nat → Nat) {before called : State} {notices : List Notice}
    (hround : machine.round (clock before.executed) before = .next called notices)
    (hdeeper : before.stack.depth < called.stack.depth) :
    let caller := before.stack.top
    let callers := before.stack.callers
    ∃ (index : UInt16) (dispatch : Dispatch machine caller index),
      Instruction.decode caller.code.bytes caller.pc = .ok ⟨.invokestatic, .index index⟩ ∧
      called.stack.frames = dispatch.callee :: dispatch.waiting :: callers ∧
      ∀ later, Above machine clock before.stack.depth called later →
        (∃ above activation, later.stack.frames = above ++ activation :: dispatch.waiting :: callers ∧
          SameActivation dispatch.callee activation) ∧
        ∀ after told, machine.round (clock later.executed) later = .next after told →
          after.stack.depth ≤ before.stack.depth →
          ∃ done, later.stack.frames = done :: dispatch.waiting :: callers ∧ done.isDone = true ∧
            after.stack.frames = dispatch.resumed done.returnValue :: callers := by
  intro caller callers
  have hlonger : callers.length + 1 < called.stack.frames.length := by
    rw [CallStack.length_frames, ← before.stack.depth_eq]
    exact hdeeper
  obtain ⟨index, dispatch, hdecode, hcalled⟩ := (round_frames hround).call_of_longer hlonger
  have hbase : before.stack.depth = (dispatch.waiting :: callers).length := before.stack.depth_eq
  refine ⟨index, dispatch, hdecode, hcalled, fun later hlater => ?_⟩
  have hruns : RunsOn dispatch.callee (dispatch.waiting :: callers) later.stack.frames := by
    rw [hbase] at hlater
    exact hlater.keeps_base ⟨[], dispatch.callee, hcalled, .refl _⟩
  refine ⟨hruns, fun after told hback hshallow => ?_⟩
  rw [hbase, ← CallStack.length_frames] at hshallow
  obtain ⟨done, waiting, below, hwaiting, hframes, hdone, hsame, hafter⟩ :=
    (round_frames hback).leaves hruns hshallow
  cases hwaiting
  rw [dispatch.handed_waiting hsame] at hafter
  exact ⟨done, hframes, hdone, hafter⟩

/-- Method `g` of class `A` has 9, 5 and 7 on its stack when it calls `f`, which starts with the last two and a zero as
its locals. Once `f` is done, `g` goes on with the 9 and the value 4 on its stack. -/
theorem caller_isolated_passingMethod :
    ∃ frame before called later after told first back, enter passingClass passingMethod [] true = .ok frame ∧
      Rounds passingMachine (fun _ => 0) 3 (.ofEntry frame) told before ∧
      passingMachine.round 0 before = .next called first ∧ before.stack.depth < called.stack.depth ∧
      Above passingMachine (fun _ => 0) before.stack.depth called later ∧
      passingMachine.round 0 later = .next after back ∧ after.stack.depth ≤ before.stack.depth ∧
      ∃ (index : UInt16) (dispatch : Dispatch passingMachine before.stack.top index),
        dispatch.below = [9] ∧ dispatch.arguments = [5, 7] ∧ dispatch.callee.locals = [5, 7, 0] ∧
        called.stack.frames = [dispatch.callee, dispatch.waiting] ∧
        after.stack.frames = [dispatch.resumed 4] ∧ after.stack.top.stack.values = [9, 4] := by
  obtain ⟨frame, before, called, later, after, told, first, back, hframe, hbefore, hround, hdeeper, habove, hback,
      hshallow, hcallers, hstack, hlocals, hwaiting, hvalue, hafter⟩ :
      ∃ frame before called later after told first back, enter passingClass passingMethod [] true = .ok frame ∧
        Rounds passingMachine (fun _ => 0) 3 (.ofEntry frame) told before ∧
        passingMachine.round 0 before = .next called first ∧ before.stack.depth < called.stack.depth ∧
        Above passingMachine (fun _ => 0) before.stack.depth called later ∧
        passingMachine.round 0 later = .next after back ∧ after.stack.depth ≤ before.stack.depth ∧
        before.stack.callers = [] ∧ before.stack.top.stack.values = [9, 5, 7] ∧
        called.stack.top.locals = [5, 7, 0] ∧
        called.stack.callers.map (fun frame => frame.stack.values) = [[9]] ∧
        later.stack.top.returnValue = 4 ∧ after.stack.top.stack.values = [9, 4] :=
    ⟨_, _, _, _, _, _, _, _, rfl, .cons rfl (.cons rfl (.cons rfl (.refl _))), rfl, by decide,
      .next (.next (.next (.next (.refl (by decide)) rfl (by decide)) rfl (by decide)) rfl (by decide)) rfl (by decide),
      rfl, by decide, rfl, rfl, rfl, rfl, rfl, rfl⟩
  obtain ⟨index, dispatch, -, hcalled, hisolated⟩ := caller_isolated passingMachine (fun _ => 0) hround hdeeper
  rw [hcallers] at hcalled hisolated
  obtain ⟨done, hframes, -, hresumed⟩ := (hisolated later habove).2 after back hback hshallow
  obtain rfl : later.stack.top = done := (List.cons.inj hframes).1
  rw [hvalue] at hresumed
  obtain ⟨hcallee, hrest⟩ := List.cons.inj hcalled
  have hbelow : dispatch.below = [9] := by
    rw [hrest] at hwaiting
    exact (OperandStack.values_ofValues _).symm.trans (List.cons.inj hwaiting).1
  have harguments : dispatch.arguments = [5, 7] := by
    have hvalues := dispatch.values_eq
    rw [hstack, hbelow] at hvalues
    exact (List.cons.inj hvalues).2.symm
  rw [hcallee] at hlocals
  exact ⟨frame, before, called, later, after, told, first, back, hframe, hbefore, hround, hdeeper, habove, hback,
    hshallow, index, dispatch, hbelow, harguments, hlocals, hcalled, hresumed, hafter⟩

end Machine

end ClassMachine
