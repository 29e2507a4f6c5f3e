/-
Evaluation by recursion. A method is evaluated without a stack of frames: an activation goes on by
itself until it is done, and where it calls, the callee is evaluated first, one level deeper, and
its value handed to the caller. Main statement (`invoke_iff_evaluateMethod`): the run of a method on
the stack of frames ends exactly if this evaluation does, with the same outcome, the same number of
instructions and the same events; and both end under a limit on instructions.

The evaluation is followed by rounds on any stack that has the activation on top
(`follows_of_evaluate`); the other way round, a run that ends leaves fewer rounds to every
activation it goes through (`evaluate_of_halts`).
-/
import ClassMachine.Proofs.Machine.Activation
import ClassMachine.Proofs.Machine.Rounds
import ClassMachine.Trace

namespace ClassMachine.Machine

open ClassMachine.Frame

/-! ## The evaluator -/

/-- What an activation comes to: its value or its failure, the number of instructions of the whole
run by then, and the events of the activation and of those it calls, in order. -/
structure Evaluation where
  outcome : Except Failure Int32
  executed : Nat
  events : List Event

/-- The evaluation that tells of some events first. -/
def Evaluation.after (evaluation : Evaluation) (events : List Event) : Evaluation :=
  { evaluation with events := events ++ evaluation.events }

/-- A call about to be made: the method called, its activation, and the caller behind the call,
without the arguments. -/
structure Invocation where
  target : Target
  callee : Frame
  caller : Frame

/-- Takes values off a stack one after the other; the one taken last is the first of the result. -/
def takeArguments : (count : Nat) → OperandStack → List Int32 → Option (List Int32 × OperandStack)
  | 0, stack, taken => some (taken, stack)
  | count + 1, stack, taken =>
    match stack.pop? with
    | some (value, rest) => takeArguments count rest (value :: taken)
    | none => none

/-- Makes ready the call of the method that an index leads to. -/
def prepare (machine : Machine) (depth : Nat) (caller : Frame) (index : UInt16) : Except Failure Invocation :=
  match machine.resolve caller.classFile index with
  | .error fault => .error (.ofFault fault)
  | .ok target =>
    if machine.limits.callDepth ≤ depth then
      .error (.ofFault (.callDepthLimit machine.limits.callDepth))
    else
      match takeArguments target.descriptor.arity caller.stack [] with
      | none => .error (.ofFault .stackUnderflow)
      | some (arguments, stack) =>
        match Frame.enter target.classFile target.method arguments target.descriptor.returnsValue with
        | .error fault =>
          .error ((Failure.ofFault fault).locate (.entry (target.classFile.site target.method)))
        | .ok callee => .ok { target, callee, caller := { caller with stack, pc := caller.pc + 3 } }

/-- The caller once the callee has yielded a value, which it gets if the callee's result is an `int`. -/
def Invocation.resume (invocation : Invocation) (value : Int32) : Frame :=
  match invocation.target.descriptor.result with
  | .int => invocation.caller.receive value
  | .void => invocation.caller

theorem Invocation.returnsValue_resume (invocation : Invocation) (value : Int32) :
    (invocation.resume value).returnsValue = invocation.caller.returnsValue := by
  unfold Invocation.resume
  split <;> rfl

/-- What an activation does next. -/
inductive Turn where
  /-- It is done. -/
  | leave (value : Int32)
  /-- It fails when so many instructions are executed. -/
  | stop (failure : Failure) (executed : Nat)
  /-- It executes an instruction that is no call. -/
  | step (event : Event) (after : Frame)
  | call (event : Event) (invocation : Invocation)

/-- The event of an instruction that turns the activation `frame` into `after`. -/
def report (depth : Nat) (frame : Frame) (instruction : Instruction) (after : Frame) : Event where
  className := frame.site.className
  method := frame.site.method
  depth
  pc := frame.pc
  instruction
  stack := after.stack

/-- What an activation at a depth does when so many instructions are executed. -/
def turn (machine : Machine) (depth executed : Nat) (frame : Frame) : Turn :=
  if frame.isDone then
    .leave frame.returnValue
  else
    match machine.limits.checkInstructions executed with
    | .error fault => .stop ((Failure.ofFault fault).locate frame.location) executed
    | .ok () =>
      match Instruction.decode frame.code.bytes frame.pc with
      | .error error => .stop ((Failure.ofFault (.noInstruction error)).locate frame.location) executed
      | .ok instruction =>
        match instruction.callIndex? with
        | some index =>
          match machine.prepare depth frame index with
          | .error failure => .stop (failure.locate frame.location) (executed + 1)
          | .ok invocation => .call (report depth frame instruction invocation.caller) invocation
        | none =>
          match machine.execute depth instruction frame with
          | .error failure _ => .stop (failure.locate frame.location) (executed + 1)
          | .ok _ after => .step (report depth frame instruction after) after

/-- Evaluates an activation at a depth when so many instructions are executed; `none` if that does
not come to an end. -/
def evaluate (machine : Machine) (depth executed : Nat) (frame : Frame) : Option Evaluation :=
  match machine.turn depth executed frame with
  | .leave value => some { outcome := .ok value, executed, events := [] }
  | .stop failure executed => some { outcome := .error failure, executed, events := [] }
  | .step event after => do
    let rest ← machine |>.evaluate depth (executed + 1) after
    return rest.after [event]
  | .call event invocation => do
    let inner ← machine |>.evaluate (depth + 1) (executed + 1) invocation.callee
    match inner.outcome with
    | .error _ => return inner.after [event]
    | .ok value =>
      let outer ← machine |>.evaluate depth inner.executed (invocation.resume value)
      return (outer.after inner.events).after [event]
partial_fixpoint

/-- Evaluates a method with the given values as its first locals. -/
def evaluateMethod (machine : Machine) (classFile : ClassFile) (method : Member) (arguments : List Int32) :
    Option Evaluation :=
  match Frame.enter classFile method arguments true with
  | .error fault =>
    some {
      outcome := .error ((Failure.ofFault fault).locate (.entry (classFile.site method)))
      executed := 0
      events := [] }
  | .ok frame => machine.evaluate 1 0 frame

/-! ## Turns and rounds -/

/-- Taking arguments one by one is taking them all at once. -/
theorem takeArguments_eq : ∀ (count : Nat) (values taken : List Int32),
    takeArguments count ⟨values⟩ taken =
      (OperandStack.splitTop? ⟨values⟩ count).map fun split => (split.1 ++ taken, split.2)
  | 0, values, taken => by simp [takeArguments, OperandStack.splitTop?]
  | count + 1, [], taken => by simp [takeArguments, OperandStack.splitTop?, OperandStack.pop?]
  | count + 1, value :: values, taken => by
    simp only [takeArguments, OperandStack.pop?, takeArguments_eq count values (value :: taken),
      OperandStack.splitTop?, List.take_succ_cons, List.drop_succ_cons, List.length_cons,
      Nat.add_right_cancel_iff]
    split <;> simp

/-- Calls on frames and calls made ready by the evaluator succeed and fail alike. -/
theorem call_eq_prepare (machine : Machine) (depth : Nat) (caller : Frame) (index : UInt16) :
    machine.call depth index caller =
      match machine.prepare depth caller index with
      | .error failure => .error failure caller
      | .ok invocation =>
        .ok { target := invocation.target.ref, callee := invocation.callee } invocation.caller := by
  rw [call_eq]
  unfold prepare
  rcases machine.resolve caller.classFile index with fault | target
  · rfl
  dsimp only
  split
  · rfl
  rw [show caller.stack = ⟨caller.stack.topFirst⟩ from rfl, takeArguments_eq]
  rcases OperandStack.splitTop? ⟨caller.stack.topFirst⟩ target.descriptor.arity with _ | ⟨arguments, stack⟩
  · rfl
  simp only [Option.map_some, List.append_nil]
  rcases Frame.enter target.classFile target.method arguments target.descriptor.returnsValue with
    fault | callee
  · rfl
  · rfl

/-- A call that is ready stays in the caller's activation, and its callee is due to hand over a value
as the descriptor says. -/
theorem prepare_eq_ok {machine : Machine} {depth : Nat} {caller : Frame} {index : UInt16}
    {invocation : Invocation} (h : machine.prepare depth caller index = .ok invocation) :
    SameActivation caller invocation.caller ∧
      invocation.callee.returnsValue = invocation.target.descriptor.returnsValue := by
  unfold prepare at h
  rcases hresolve : machine.resolve caller.classFile index with fault | target
  · rw [hresolve] at h; cases h
  rw [hresolve] at h
  dsimp only at h
  split at h
  · cases h
  rcases htake : takeArguments target.descriptor.arity caller.stack [] with _ | ⟨arguments, stack⟩
  · rw [htake] at h; cases h
  rw [htake] at h
  rcases henter : Frame.enter target.classFile target.method arguments target.descriptor.returnsValue with
    fault | callee
  · simp only [henter] at h; cases h
  · simp only [henter] at h
    cases h
    obtain ⟨code, -, rfl⟩ := enter_eq_ok henter
    exact ⟨⟨rfl, rfl, rfl, rfl, rfl⟩, rfl⟩

/-- A round is the turn of the activation on top, done on the stack. -/
theorem round_eq_turn {machine : Machine} (hdeadline : machine.limits.deadline = none) (elapsed : Nat)
    (stack : CallStack) (executed : Nat) :
    machine.round elapsed { stack, executed } =
      match machine.turn stack.depth executed stack.top with
      | .leave _ => State.complete { stack, executed }
      | .stop failure total => .halt { outcome := .error failure, executed := total } []
      | .step event after => .next { stack := stack.setTop after, executed := executed + 1 } [.executed event]
      | .call event invocation =>
        .next { stack := (stack.setTop invocation.caller).push invocation.callee, executed := executed + 1 }
          [.called invocation.target.ref invocation.callee.locals, .executed event] := by
  unfold round turn
  rw [check_of_no_deadline hdeadline]
  dsimp only
  split
  · rfl
  rcases machine.limits.checkInstructions executed with fault | ⟨⟩
  · rfl
  rcases Instruction.decode stack.top.code.bytes stack.top.pc with error | instruction
  · rfl
  dsimp only
  unfold perform
  rcases hcall : instruction.callIndex? with _ | index
  · rcases hexecute : machine.execute stack.depth instruction stack.top with
      ⟨call, after⟩ | ⟨failure, after⟩
    · obtain ⟨rfl, -⟩ := execute_moves machine stack.depth hcall hexecute
      rfl
    · rfl
  · dsimp only
    rw [execute_of_call machine stack.depth hcall, call_eq_prepare]
    rcases machine.prepare stack.depth stack.top index with failure | invocation
    · rfl
    · rfl

/-- What an activation must be like for each of its turns. -/
theorem turn_spec (machine : Machine) (depth executed : Nat) (frame : Frame) :
    match machine.turn depth executed frame with
    | .leave value => frame.isDone = true ∧ value = frame.returnValue
    | .stop _ _ => True
    | .step _ after => SameActivation frame after
    | .call _ invocation => SameActivation frame invocation.caller ∧
        invocation.callee.returnsValue = invocation.target.descriptor.returnsValue := by
  unfold turn
  by_cases hdone : frame.isDone = true
  · rw [if_pos hdone]
    exact ⟨hdone, rfl⟩
  rw [if_neg hdone]
  rcases machine.limits.checkInstructions executed with fault | ⟨⟩
  · trivial
  rcases Instruction.decode frame.code.bytes frame.pc with error | instruction
  · trivial
  dsimp only
  rcases hcall : instruction.callIndex? with _ | index
  · rcases hexecute : machine.execute depth instruction frame with ⟨call, after⟩ | ⟨failure, after⟩
    · exact (execute_moves machine depth hcall hexecute).2.sameActivation
    · trivial
  · rcases hprepare : machine.prepare depth frame index with failure | invocation
    · simp only [hprepare]
    · simp only [hprepare]
      exact prepare_eq_ok hprepare

/-! ## Rounds that follow an evaluation -/

/-- The rounds from a state come to what the evaluation of its top frame says: the frame is done with
the value, and the frames below are as they were, or the run ends in the failure. -/
def Follows (machine : Machine) (clock : Nat → Nat) (state : State) (evaluation : Evaluation) : Prop :=
  match evaluation.outcome with
  | .ok value => ∃ count notices done,
      Rounds machine clock count state notices
        { stack := state.stack.setTop done, executed := evaluation.executed } ∧
      done.isDone = true ∧ done.returnValue = value ∧
      done.returnsValue = state.stack.top.returnsValue ∧ eventsOf notices = evaluation.events
  | .error failure => ∃ count notices,
      Halts machine clock count state notices
        { outcome := .error failure, executed := evaluation.executed } ∧
      eventsOf notices = evaluation.events

variable {machine : Machine} {clock : Nat → Nat}

/-- Rounds within one activation may come first. -/
theorem Follows.after_rounds {count executed : Nat} {state : State} {notices : List Notice} {after : Frame}
    {rest : Evaluation}
    (hrounds : Rounds machine clock count state notices { stack := state.stack.setTop after, executed })
    (hreturns : after.returnsValue = state.stack.top.returnsValue)
    (h : Follows machine clock { stack := state.stack.setTop after, executed } rest) :
    Follows machine clock state (rest.after (eventsOf notices)) := by
  obtain ⟨outcome, total, events⟩ := rest
  cases outcome with
  | ok value =>
    obtain ⟨more, told, done, hmore, hdone, hvalue, hsame, rfl⟩ := h
    exact ⟨count + more, notices ++ told, done, hrounds.trans hmore, hdone, hvalue,
      hsame.trans hreturns, eventsOf_append notices told⟩
  | error failure =>
    obtain ⟨more, told, hmore, rfl⟩ := h
    exact ⟨count + more, notices ++ told, hrounds.halts hmore, eventsOf_append notices told⟩

/-- The frame of a call that is done hands its value to the caller as the evaluator does. -/
theorem resume_eq (stack : CallStack) (invocation : Invocation) (done : Frame)
    (h : done.returnsValue = invocation.target.descriptor.returnsValue) :
    (stack.setTop invocation.caller).resume done = stack.setTop (invocation.resume done.returnValue) := by
  unfold CallStack.resume Invocation.resume
  rw [h]
  unfold Descriptor.returnsValue
  cases invocation.target.descriptor.result <;> rfl

/-- The rounds of a call, from the caller before it to the caller after it. -/
theorem rounds_of_call (hdeadline : machine.limits.deadline = none) {stack : CallStack} {executed total : Nat}
    {event : Event} {invocation : Invocation} {value : Int32} {events : List Event}
    (hturn : machine.turn stack.depth executed stack.top = .call event invocation)
    (hinner : Follows machine clock
      { stack := (stack.setTop invocation.caller).push invocation.callee, executed := executed + 1 }
      { outcome := .ok value, executed := total, events }) :
    ∃ count notices, Rounds machine clock (count + 1) { stack, executed } notices
        { stack := stack.setTop (invocation.resume value), executed := total } ∧
      eventsOf notices = event :: events := by
  have hcall := round_eq_turn hdeadline (clock executed) stack executed
  rw [hturn] at hcall
  have hspec := turn_spec machine stack.depth executed stack.top
  rw [hturn] at hspec
  obtain ⟨count, notices, done, hrounds, hdone, rfl, hreturns, rfl⟩ := hinner
  have hlast := round_of_done machine (clock total) total hdone
    (CallStack.pop?_push_setTop (stack.setTop invocation.caller) invocation.callee done)
  rw [CallStack.top_setTop, resume_eq stack invocation done (hreturns.trans hspec.2)] at hlast
  refine ⟨1 + count, _, (Rounds.one hcall).trans (hrounds.trans (Rounds.one hlast)), ?_⟩
  rw [eventsOf_append, eventsOf_append]
  show event :: (eventsOf notices ++ []) = _
  rw [List.append_nil]

/-- Where the evaluation of an activation ends, the rounds on every stack with this activation on top
follow it. -/
theorem follows_of_evaluate (clock : Nat → Nat) (hdeadline : machine.limits.deadline = none)
    {depth executed : Nat} {frame : Frame} {evaluation : Evaluation}
    (h : machine.evaluate depth executed frame = some evaluation) :
    ∀ stack : CallStack, stack.depth = depth → stack.top = frame →
      Follows machine clock { stack, executed } evaluation := by
  -- The induction is on the approximations of the evaluator: what holds of the results of the calls
  -- that it makes to itself holds of its own.
  refine evaluate.partial_correctness machine (fun depth executed frame evaluation =>
    ∀ stack : CallStack, stack.depth = depth → stack.top = frame →
      Follows machine clock { stack, executed } evaluation) ?_ depth executed frame evaluation h
  clear h depth executed frame evaluation
  rintro approx ih depth executed frame evaluation h stack rfl rfl
  have hround := round_eq_turn hdeadline (clock executed) stack executed
  have hspec := turn_spec machine stack.depth executed stack.top
  rcases hturn : machine.turn stack.depth executed stack.top with value | ⟨failure, total⟩ | ⟨event, after⟩ |
    ⟨event, invocation⟩
  all_goals
    rw [hturn] at h hspec
    simp only [hturn] at hround
    simp only [bind, Option.bind_eq_some_iff, Option.pure_def, Option.some.injEq] at h
  · subst h
    obtain ⟨hdone, rfl⟩ := hspec
    exact ⟨0, [], stack.top, .refl _, hdone, rfl, rfl, rfl⟩
  · subst h
    exact ⟨1, [], .last hround, rfl⟩
  · obtain ⟨rest, hrest, rfl⟩ := h
    exact Follows.after_rounds (Rounds.one hround) hspec.returnsValue
      (ih _ _ _ rest hrest (stack.setTop after) rfl rfl)
  · obtain ⟨⟨outcome, total, events⟩, hinner, h⟩ := h
    have hfollows := ih _ _ _ _ hinner ((stack.setTop invocation.caller).push invocation.callee) rfl rfl
    cases outcome with
    | error failure =>
      cases h
      obtain ⟨count, notices, hhalts, rfl⟩ := hfollows
      exact ⟨1 + count, _, (Rounds.one hround).halts hhalts, rfl⟩
    | ok value =>
      simp only [Option.bind_eq_some_iff, Option.some.injEq] at h
      obtain ⟨outer, houter, rfl⟩ := h
      obtain ⟨count, notices, hrounds, hevents⟩ := rounds_of_call hdeadline hturn hfollows
      have hsame : (invocation.resume value).returnsValue = stack.top.returnsValue := by
        rw [← hspec.1.returnsValue]
        exact invocation.returnsValue_resume value
      have hfinal := Follows.after_rounds hrounds hsame
        (ih _ _ _ outer houter (stack.setTop (invocation.resume value)) rfl rfl)
      rw [hevents] at hfinal
      exact hfinal

/-- Where a run ends, so does the evaluation of its top frame. -/
theorem evaluate_of_halts (hdeadline : machine.limits.deadline = none) (count : Nat) :
    ∀ {stack : CallStack} {executed : Nat} {notices : List Notice} {halt : Halt},
      Halts machine clock count { stack, executed } notices halt →
      ∃ evaluation, machine.evaluate stack.depth executed stack.top = some evaluation := by
  induction count using Nat.strongRecOn with
  | ind count ih =>
    intro stack executed notices halt hhalts
    have hround := round_eq_turn hdeadline (clock executed) stack executed
    rw [evaluate]
    rcases hturn : machine.turn stack.depth executed stack.top with value | ⟨failure, total⟩ |
      ⟨event, after⟩ | ⟨event, invocation⟩
    · exact ⟨_, rfl⟩
    · exact ⟨_, rfl⟩
    · rw [hturn] at hround
      obtain ⟨left, more, rfl, -, hleft⟩ := hhalts.after_rounds (Rounds.one hround)
      obtain ⟨rest, hrest⟩ := ih left (by omega) hleft
      have hrest : machine.evaluate stack.depth (executed + 1) after = some rest := hrest
      exact ⟨_, by dsimp only; rw [hrest]; rfl⟩
    · rw [hturn] at hround
      obtain ⟨left, more, hcount, -, hleft⟩ := hhalts.after_rounds (Rounds.one hround)
      obtain ⟨inner, hinner⟩ := ih left (by omega) hleft
      have hfollows := follows_of_evaluate clock hdeadline hinner _ rfl rfl
      have hinner : machine.evaluate (stack.depth + 1) (executed + 1) invocation.callee = some inner := hinner
      obtain ⟨outcome, total, events⟩ := inner
      cases outcome with
      | error failure => exact ⟨_, by dsimp only; rw [hinner]; rfl⟩
      | ok value =>
        -- the callee takes rounds of its own, which leaves fewer of them to the caller
        obtain ⟨own, told, hrounds, -⟩ := rounds_of_call hdeadline hturn hfollows
        obtain ⟨left, more, hcount, -, hleft⟩ := hhalts.after_rounds hrounds
        obtain ⟨outer, houter⟩ := ih left (by omega) hleft
        have houter : machine.evaluate stack.depth total (invocation.resume value) = some outer := houter
        exact ⟨_, by dsimp only; rw [hinner]; dsimp only [bind, Option.bind]; rw [houter]; rfl⟩

/-! ## Runs of methods -/

/-- A run that starts with a frame ends as its evaluation does. -/
theorem halts_ofEntry_iff (clock : Nat → Nat) (hdeadline : machine.limits.deadline = none) (frame : Frame) (halt : Halt)
    (events : List Event) :
    (∃ count notices, Halts machine clock count (.ofEntry frame) notices halt ∧ eventsOf notices = events) ↔
      machine.evaluate 1 0 frame = some { outcome := halt.outcome, executed := halt.executed, events } := by
  -- an evaluation that ends gives the run its end
  have hend : ∀ evaluation, machine.evaluate 1 0 frame = some evaluation →
      ∃ count notices, Halts machine clock count (.ofEntry frame) notices
        { outcome := evaluation.outcome, executed := evaluation.executed } ∧
        eventsOf notices = evaluation.events := by
    intro evaluation h
    have hfollows := follows_of_evaluate clock hdeadline h (.ofEntry frame) rfl rfl
    obtain ⟨outcome, total, events⟩ := evaluation
    cases outcome with
    | error failure => exact hfollows
    | ok value =>
      obtain ⟨count, notices, done, hrounds, hdone, rfl, -, rfl⟩ := hfollows
      have hlast := round_of_entry_done machine (clock total) total hdone
        (show ((CallStack.ofEntry frame).setTop done).pop? = none from rfl)
      refine ⟨count + 1, _, hrounds.halts (.last hlast), ?_⟩
      rw [eventsOf_append]
      show eventsOf notices ++ [] = _
      rw [List.append_nil]
  constructor
  · rintro ⟨count, notices, hhalts, rfl⟩
    obtain ⟨evaluation, h⟩ := evaluate_of_halts hdeadline count hhalts
    have h : machine.evaluate 1 0 frame = some evaluation := h
    obtain ⟨count', notices', hhalts', hevents⟩ := hend evaluation h
    obtain ⟨-, rfl, rfl⟩ := hhalts.unique hhalts'
    rw [h, hevents]
  · intro h
    exact hend _ h

/-- The run of a method ends as its evaluation does. -/
theorem methodHalts_iff (clock : Nat → Nat) (hdeadline : machine.limits.deadline = none)
    (classFile : ClassFile) (method : Member) (arguments : List Int32) (halt : Halt) (events : List Event) :
    (∃ notices, MethodHalts machine clock classFile method arguments notices halt ∧ eventsOf notices = events) ↔
      machine.evaluateMethod classFile method arguments =
        some { outcome := halt.outcome, executed := halt.executed, events } := by
  unfold evaluateMethod
  rcases henter : Frame.enter classFile method arguments true with fault | frame
  · constructor
    · rintro ⟨notices, h, rfl⟩
      cases h with
      | unentered henter' => rw [henter] at henter'; cases henter'; rfl
      | entered henter' _ => rw [henter] at henter'; cases henter'
    · intro h
      obtain ⟨outcome, executed⟩ := halt
      cases h
      exact ⟨[], .unentered henter, rfl⟩
  · rw [← halts_ofEntry_iff clock hdeadline]
    constructor
    · rintro ⟨notices, h, rfl⟩
      cases h with
      | unentered henter' => rw [henter] at henter'; cases henter'
      | entered henter' hhalts =>
        rw [henter] at henter'
        cases henter'
        exact ⟨_, _, hhalts, rfl⟩
    · rintro ⟨count, notices, hhalts, rfl⟩
      exact ⟨_, .entered henter hhalts, rfl⟩

/-- Under a limit on instructions the evaluation of every method ends. -/
theorem evaluateMethod_of_limit (hdeadline : machine.limits.deadline = none) {limit : Nat}
    (hlimit : machine.limits.instructions = some limit) (classFile : ClassFile) (method : Member)
    (arguments : List Int32) :
    ∃ evaluation, machine.evaluateMethod classFile method arguments = some evaluation := by
  unfold evaluateMethod
  rcases Frame.enter classFile method arguments true with fault | frame
  · exact ⟨_, rfl⟩
  · obtain ⟨count, notices, halt, -, hhalts⟩ := halts_of_instruction_limit (fun _ => 0) hlimit
      (2 * limit + 1) (.ofEntry frame) (Nat.zero_le limit) (Nat.le_refl _)
    exact evaluate_of_halts hdeadline count hhalts

/-- The run of a method on a stack of frames is its evaluation by recursion: for all classes, all
limits on instructions and depth, and no deadline, a recorded run ends if and only if the evaluation
does, with the same value or failure, the same number of instructions and the same events in the same
order. Under a limit on instructions both end. -/
theorem invoke_iff_evaluateMethod (classes : ClassTable) (instructions : Option Nat) (callDepth : Nat)
    (clock : Nat → Nat) (classFile : ClassFile) (method : Member) (arguments : List Int32) :
    let machine : Machine := { classes, limits := { instructions, callDepth } }
    (∀ (halt : Halt) (recorder : Recorder),
      (∃ fuel, (Engine.bounded Recorder.hook.observer clock fuel).invoke machine classFile method arguments
          .empty = some (halt, recorder)) ↔
        machine.evaluateMethod classFile method arguments =
          some { outcome := halt.outcome, executed := halt.executed, events := recorder.events.toList }) ∧
      (instructions.isSome = true →
        ∃ evaluation, machine.evaluateMethod classFile method arguments = some evaluation) := by
  intro machine
  refine ⟨fun halt recorder => ?_, fun hlimit => ?_⟩
  · rw [invoke_bounded_iff, ← methodHalts_iff clock rfl]
    simp only [notifyAll_recorder_iff]
  · obtain ⟨limit, rfl⟩ := Option.isSome_iff_exists.1 hlimit
    exact evaluateMethod_of_limit rfl rfl classFile method arguments

/-- A method that calls the method of slot 6 and yields the value it gets. -/
def callingMethod : Member :=
  ⟨8, 7, 4, [⟨8, [0, 1, 0, 0, 0, 0, 0, 4, 0xb8, 0, 6, 0xac, 0, 0, 0, 0]⟩]⟩

/-- Class `A` of two methods: `f` yields 1, and `g` calls `f`. -/
def callingClass : ClassFile where
  minorVersion := 0
  majorVersion := 52
  pool := .ofList [
    ⟨.utf8, [0x41]⟩, ⟨.classRef, [0, 1]⟩, ⟨.utf8, [0x66]⟩, ⟨.utf8, [0x28, 0x29, 0x49]⟩,
    ⟨.nameAndType, [0, 3, 0, 4]⟩, ⟨.methodRef, [0, 2, 0, 5]⟩, ⟨.utf8, [0x67]⟩,
    ⟨.utf8, [0x43, 0x6f, 0x64, 0x65]⟩]
  accessFlags := 1
  thisClass := 2
  superClass := 0
  interfaces := []
  fields := []
  methods := [⟨8, 3, 4, [⟨8, [0, 1, 0, 0, 0, 0, 0, 2, 0x04, 0xac, 0, 0, 0, 0]⟩]⟩, callingMethod]
  attributes := []

/-- The machine that knows class `A` and executes 9 instructions at most. -/
def callingMachine : Machine :=
  { classes := ⟨[("A", callingClass)]⟩, limits := { instructions := some 9 } }

/-- A method that calls the method of slot 6 with 5 and 7 above a 9, and subtracts what it yields from the 9. -/
def passingMethod : Member :=
  ⟨8, 7, 9, [⟨8, [0, 3, 0, 0, 0, 0, 0, 11, 0x10, 9, 0x10, 5, 0x10, 7, 0xb8, 0, 6, 0x64, 0xac, 0, 0, 0, 0]⟩]⟩

/-- Class `A` of two methods: `f` yields the first of its two arguments less 1, and `g` passes 5 and 7 to `f`. -/
def passingClass : ClassFile :=
  { callingClass with
    pool := .ofList [
      ⟨.utf8, [0x41]⟩, ⟨.classRef, [0, 1]⟩, ⟨.utf8, [0x66]⟩, ⟨.utf8, [0x28, 0x49, 0x49, 0x29, 0x49]⟩,
      ⟨.nameAndType, [0, 3, 0, 4]⟩, ⟨.methodRef, [0, 2, 0, 5]⟩, ⟨.utf8, [0x67]⟩,
      ⟨.utf8, [0x43, 0x6f, 0x64, 0x65]⟩, ⟨.utf8, [0x28, 0x29, 0x49]⟩]
    methods := [
      ⟨8, 3, 4, [⟨8, [0, 2, 0, 3, 0, 0, 0, 4, 0x1a, 0x04, 0x64, 0xac, 0, 0, 0, 0]⟩]⟩, passingMethod] }

/-- The machine that knows this class and executes 20 instructions at most. -/
def passingMachine : Machine :=
  { classes := ⟨[("A", passingClass)]⟩, limits := { instructions := some 20 } }

/-- The evaluation of `g` of class `A` ends after 10 instructions, four of them in `f`, which gets the values in the
order in which they were pushed. -/
theorem evaluateMethod_passingMethod :
    let events : List (String × Nat × Opcode × List Int32) := [
      ("g", 1, .bipush, [9]), ("g", 1, .bipush, [9, 5]), ("g", 1, .bipush, [9, 5, 7]),
      ("g", 1, .invokestatic, [9]), ("f", 2, .iload0, [5]), ("f", 2, .iconst1, [5, 1]), ("f", 2, .isub, [4]),
      ("f", 2, .ireturn, []), ("g", 1, .isub, [5]), ("g", 1, .ireturn, [])]
    passingMachine.limits.instructions.isSome = true ∧
    ∃ evaluation, passingMachine.evaluateMethod passingClass passingMethod [] = some evaluation ∧
      evaluation.outcome.toOption = some 5 ∧ evaluation.executed = 10 ∧
      evaluation.events.map (fun event => (event.method, event.depth, event.instruction.opcode, event.stack.values)) =
        events := by
  intro events
  obtain ⟨hiff, hends⟩ := invoke_iff_evaluateMethod passingMachine.classes (some 20) 1024 (fun _ => 0)
    passingClass passingMethod []
  obtain ⟨evaluation, hevaluation⟩ := hends rfl
  refine ⟨rfl, evaluation, hevaluation, ?_⟩
  obtain ⟨halt, recorder, hrun, hview⟩ : ∃ halt recorder,
      (Engine.bounded Recorder.hook.observer (fun _ => 0) 12).invoke passingMachine passingClass passingMethod []
        .empty = some (halt, recorder) ∧
      halt.outcome.toOption = some 5 ∧ halt.executed = 10 ∧
      recorder.events.toList.map
          (fun event => (event.method, event.depth, event.instruction.opcode, event.stack.values)) = events :=
    ⟨_, _, rfl, rfl, rfl, rfl⟩
  cases hevaluation.symm.trans ((hiff halt recorder).1 ⟨12, hrun⟩)
  exact hview

end ClassMachine.Machine
