/-
What runs yield. The result of a run is decided in the frame it starts with: it is the value that an `ireturn` of that
frame takes off the stack, and 0 if the frame gets to the end of its code without one, by `return`, by a jump or by
falling off (`Halts.result`). The methods called in between have no part in it, and neither has the descriptor: a
method of result type `void` that executes `ireturn` yields the value to whoever starts a run with it.
-/
import ClassMachine.Proofs.Machine.Isolation
import ClassMachine.Proofs.Session.Effects

namespace ClassMachine

theorem CallStack.eq_ofEntry {stack : CallStack} {frame : Frame} (h : stack.frames = [frame]) :
    stack = .ofEntry frame := by
  obtain ⟨top, callers, depth, hdepth⟩ := stack
  obtain ⟨rfl, rfl⟩ := List.cons.inj h
  subst hdepth
  rfl

namespace Machine

open ClassMachine.Frame

/-! ## The frame that a run starts with -/

/-- What the frame that the run started with, the last one, has for its result. -/
def entryValue : List Frame → Int32
  | [] => 0
  | [frame] => frame.returnValue
  | _ :: caller :: below => entryValue (caller :: below)

/-- The run that starts with the frame executes an `ireturn` in it, which takes this value off the stack. -/
def Returns (machine : Machine) (clock : Nat → Nat) (entry : Frame) (value : Int32) : Prop :=
  ∃ count notices frame executed operand stack next told,
    Rounds machine clock count (.ofEntry entry) notices { stack := .ofEntry frame, executed } ∧
    Instruction.decode frame.code.bytes frame.pc = .ok ⟨.ireturn, operand⟩ ∧
    frame.stack.pop? = some (value, stack) ∧
    machine.round (clock executed) { stack := .ofEntry frame, executed } = .next next told

/-- What the run that starts with the frame yields: the value of its `ireturn`, or 0 if it executes none. -/
def Result (machine : Machine) (clock : Nat → Nat) (entry : Frame) (value : Int32) : Prop :=
  Returns machine clock entry value ∨ (value = 0 ∧ ∀ taken, ¬ Returns machine clock entry taken)

variable {machine : Machine} {clock : Nat → Nat}

/-- A round changes what the first frame has for its result only by an instruction of that frame. -/
theorem FrameStep.entryValue_eq {frames next : List Frame} (h : FrameStep machine frames next) :
    entryValue next = entryValue frames ∨
      ∃ frame after instruction, frames = [frame] ∧ next = [after] ∧
        Instruction.decode frame.code.bytes frame.pc = .ok instruction ∧ Moves instruction frame after := by
  cases h with
  | @back done caller below =>
    left
    rcases below with _ | ⟨second, below⟩
    · obtain ⟨stack, hhanded⟩ := caller.handed_eq done
      rw [hhanded]
      rfl
    · rfl
  | @step frame after below instruction _ hdecode hmoves =>
    rcases below with _ | ⟨second, below⟩
    · exact .inr ⟨frame, after, instruction, rfl, rfl, hdecode, hmoves⟩
    · exact .inl rfl
  | @call frame below _ _ _ _ dispatch =>
    left
    rcases below with _ | ⟨second, below⟩
    · rfl
    · rfl

/-- A frame that is alone and executes an `ireturn` is done afterwards, with the value that was taken. -/
theorem FrameStep.of_ireturn {frame : Frame} {next : List Frame} {operand : Operand}
    (h : FrameStep machine [frame] next)
    (hdecode : Instruction.decode frame.code.bytes frame.pc = .ok ⟨.ireturn, operand⟩) :
    ∃ value stack, frame.stack.pop? = some (value, stack) ∧
      next = [{ frame with stack, returnValue := value, pc := frame.code.bytes.size }] := by
  cases h with
  | step instruction _ hdecode' hmoves =>
    rw [hdecode] at hdecode'
    cases hdecode'
    cases hmoves with
    | onward _ hopcode => cases hopcode
    | jump _ hopcode => cases hopcode
    | voidReturn hopcode => cases hopcode
    | @ireturn value stack _ hpop => exact ⟨value, stack, hpop, rfl⟩
  | call _ hdecode' =>
    rw [hdecode] at hdecode'
    cases hdecode'

/-- The round after the `ireturn` of the first frame ends the run, with the value that was taken. -/
theorem Returns.outcome {entry : Frame} {value : Int32} (h : Returns machine clock entry value) {count : Nat}
    {notices : List Notice} {halt : Halt} (hhalts : Halts machine clock count (.ofEntry entry) notices halt) :
    halt.outcome = .ok value := by
  obtain ⟨_, _, frame, executed, operand, stack, next, told, hrounds, hdecode, hpop, hround⟩ := h
  obtain ⟨_, _, hpop', hframes⟩ := (round_frames hround).of_ireturn hdecode
  cases hpop.symm.trans hpop'
  have hstack := CallStack.eq_ofEntry hframes
  have hdone : next.stack.top.isDone = true := by
    rw [hstack]
    exact decide_eq_true (Nat.le_refl frame.code.bytes.size)
  have hlast := round_of_entry_done machine (clock next.executed) next.executed hdone (by rw [hstack]; rfl)
  -- the run goes through the state behind the `ireturn`, and from there it has one end
  obtain ⟨_, _, -, -, hrest⟩ := Halts.after_rounds (hrounds.trans (.one hround)) hhalts
  obtain ⟨-, -, rfl⟩ := hrest.unique (.last hlast)
  rw [hstack]
  rfl

/-- The run that starts with the frame gets to this state, and there its result is 0. -/
def StandsAtZero (machine : Machine) (clock : Nat → Nat) (entry : Frame) (state : State) : Prop :=
  (∃ count notices, Rounds machine clock count (.ofEntry entry) notices state) ∧ entryValue state.stack.frames = 0

/-- A round leaves the result at 0, unless it executes an `ireturn` in the first frame. -/
theorem StandsAtZero.round {entry : Frame} (hnone : ∀ taken, ¬ Returns machine clock entry taken)
    {state next : State} {told : List Notice} (h : StandsAtZero machine clock entry state)
    (hround : machine.round (clock state.executed) state = .next next told) :
    StandsAtZero machine clock entry next := by
  obtain ⟨⟨count, notices, hrounds⟩, hzero⟩ := h
  refine ⟨⟨count + 1, notices ++ told, hrounds.trans (.one hround)⟩, ?_⟩
  rcases (round_frames hround).entryValue_eq with hsame | ⟨frame, after, instruction, hframe, hafter, hdecode, hmoves⟩
  · rw [hsame, hzero]
  rw [hframe] at hzero
  rw [hafter]
  cases hmoves with
  | onward => exact hzero
  | jump => exact hzero
  | voidReturn => rfl
  | @ireturn value stack hopcode hpop =>
    refine absurd ?_ (hnone value)
    obtain ⟨opcode, operand⟩ := instruction
    cases hopcode
    obtain ⟨_, executed⟩ := state
    cases CallStack.eq_ofEntry hframe
    exact ⟨count, notices, frame, executed, operand, stack, next, told, hrounds, hdecode, hpop, hround⟩

/-- As long as its first frame executes no `ireturn`, a run has the result 0. -/
theorem Rounds.entryValue_eq_zero {entry : Frame} (hnone : ∀ taken, ¬ Returns machine clock entry taken)
    (hentry : entry.returnValue = 0) {count : Nat} {notices : List Notice} {state : State}
    (h : Rounds machine clock count (.ofEntry entry) notices state) : entryValue state.stack.frames = 0 := by
  have hfirst : StandsAtZero machine clock entry (.ofEntry entry) := ⟨⟨0, [], .refl _⟩, hentry⟩
  have hlast := h.preserves (StandsAtZero machine clock entry) (fun _ => True)
    (fun hzero hround => ⟨hzero.round hnone hround, fun _ _ => trivial⟩) hfirst
  exact hlast.1.2

/-- A run that succeeds ends with the result of its first frame. -/
theorem entryValue_of_halt {elapsed executed : Nat} {state : State} {value : Int32} {notices : List Notice}
    (h : machine.round elapsed state = .halt { outcome := .ok value, executed } notices) :
    entryValue state.stack.frames = value := by
  have hcase := round_cases machine elapsed state
  rw [h] at hcase
  generalize hresult : Round.halt { outcome := .ok value, executed } notices = result at hcase
  cases hcase with
  | finish hdone hpop =>
    obtain ⟨⟨top, _ | ⟨caller, below⟩, depth, hdepth⟩, executed⟩ := state
    · cases hresult
      rfl
    · cases hpop
  | complete => cases hresult
  | limit => cases hresult
  | undecodable => cases hresult
  | perform instruction =>
    unfold perform State.abort at hresult
    split at hresult <;> cases hresult

/-- A run that succeeds yields what its first frame returns, or 0. -/
theorem Halts.result {entry : Frame} {count executed : Nat} {notices : List Notice} {value : Int32}
    (hentry : entry.returnValue = 0)
    (h : Halts machine clock count (.ofEntry entry) notices { outcome := .ok value, executed }) :
    Result machine clock entry value := by
  by_cases hreturns : ∃ taken, Returns machine clock entry taken
  · obtain ⟨taken, htaken⟩ := hreturns
    cases htaken.outcome h
    exact .inl htaken
  · have hnone : ∀ taken, ¬ Returns machine clock entry taken := fun taken htaken => hreturns ⟨taken, htaken⟩
    refine .inr ⟨?_, hnone⟩
    obtain ⟨_, last, _, _, -, hrounds, -, hlast⟩ := h.last_round
    exact (entryValue_of_halt hlast).symm.trans (hrounds.entryValue_eq_zero hnone hentry)

/-- The run of a method that succeeds yields what the method itself returns, or 0. -/
theorem MethodHalts.result {classFile : ClassFile} {method : Member} {arguments : List Int32}
    {notices : List Notice} {halt : Halt} {value : Int32}
    (h : MethodHalts machine clock classFile method arguments notices halt) (hvalue : halt.outcome = .ok value) :
    ∃ entry, enter classFile method arguments true = .ok entry ∧ Result machine clock entry value := by
  cases h with
  | unentered => cases hvalue
  | @entered entry _ _ _ henter hhalts =>
    have hentry : entry.returnValue = 0 := by
      obtain ⟨_, -, rfl⟩ := enter_eq_ok henter
      rfl
    obtain ⟨_, executed⟩ := halt
    cases hvalue
    exact ⟨entry, henter, hhalts.result hentry⟩

end Machine

namespace Session

open ClassMachine.Frame

variable {σ : Type}

/-! ## Calls and programs -/

/-- What a call over these classes yields: the result of a run of the method that the target names. -/
def ResultOf (classes : ClassTable) (limits : Limits) (target : MemberRef) (arguments : List Int32) (value : Int32) :
    Prop :=
  ∃ classFile method entry clock, classes.find? target.className = some classFile ∧
    classFile.findMethod? target.name target.descriptor = some method ∧
    enter classFile method arguments true = .ok entry ∧ Machine.Result ⟨classes, limits⟩ clock entry value

theorem CallCase.resultOf {classes : ClassTable} {limits : Limits} {target : MemberRef} {arguments : List Int32}
    {notices : List Notice} {value : Int32} (h : CallCase classes limits target arguments notices (.ok value)) :
    ResultOf classes limits target arguments value := by
  cases h with
  | @completed classFile method clock _ _ _ hclass hmethod hrun =>
    obtain ⟨entry, henter, hresult⟩ := hrun.result rfl
    exact ⟨classFile, method, entry, clock, hclass, hmethod, henter, hresult⟩

/-- A program that succeeds yields what its `main` yields over the classes that loading left behind. -/
theorem execute_resultOf {engine : Engine Option σ} (hengine : engine.Faithful) {path : String}
    {contents : Except FileError (List UInt8)} {session after : Session σ} {value : Int32}
    (h : Ends (execute engine path contents) session (.ok value) after) :
    ∃ bytes classFile className, contents = .ok bytes ∧ ClassFile.parse bytes = .ok classFile ∧
      classFile.name = .ok className ∧
      ResultOf after.classes after.limits ⟨className, entryPoint.1, entryPoint.2⟩ [] value := by
  rcases execute_ends hengine h with ⟨error, -, heq⟩ |
    ⟨bytes, classFile, className, middle, more, hcontents, hparse, hname, -, hcall, rfl⟩
  · cases heq
  · exact ⟨bytes, classFile, className, hcontents, hparse, hname, hcall.resultOf⟩

/-- A run that succeeds yields what the method it starts with returns. For every engine, over all classes, under all
limits and for all arguments: the result is the value that an `ireturn` of the method itself takes off its stack, and
0 if the method executes none, whatever it calls; so it is for calls of a session and for programs. The descriptor
is not asked: a method of result type `void` yields 0 exactly as long as its own body executes no `ireturn` with
another value. -/
theorem result_returned_or_zero {engine : Engine Option σ} (hengine : engine.Faithful) :
    (∀ machine classFile method arguments seen halt final value,
      engine.invoke machine classFile method arguments seen = some (halt, final) → halt.outcome = .ok value →
      ∃ clock entry, enter classFile method arguments true = .ok entry ∧ Machine.Result machine clock entry value) ∧
    (∀ session target arguments value after, Ends (call engine target arguments) session (.ok value) after →
      ResultOf session.classes session.limits target arguments value) ∧
    ∀ path contents session value after, Ends (execute engine path contents) session (.ok value) after →
      ∃ bytes classFile className, contents = .ok bytes ∧ ClassFile.parse bytes = .ok classFile ∧
        classFile.name = .ok className ∧
        ResultOf after.classes after.limits ⟨className, entryPoint.1, entryPoint.2⟩ [] value := by
  refine ⟨fun machine classFile method arguments seen halt final value hinvoke hvalue => ?_,
    fun session target arguments value after hcall => ?_,
    fun path contents session value after hexecute => execute_resultOf hengine hexecute⟩
  · obtain ⟨clock, notices, hhalts, -⟩ := hengine.invoke hinvoke
    obtain ⟨entry, henter, hresult⟩ := hhalts.result hvalue
    exact ⟨clock, entry, henter, hresult⟩
  · obtain ⟨notices, hcase, -⟩ := call_cases hengine hcall
    exact hcase.resultOf

/-- Class `A`, the `main` of which has the result type `void` and returns 1. -/
def returningClass : ClassFile where
  minorVersion := 0
  majorVersion := 52
  pool := .ofList [
    ⟨.utf8, [0x41]⟩, ⟨.classRef, [0, 1]⟩, ⟨.utf8, [0x6d, 0x61, 0x69, 0x6e]⟩,
    ⟨.utf8, [0x28, 0x5b, 0x4c, 0x6a, 0x61, 0x76, 0x61, 0x2f, 0x6c, 0x61, 0x6e,
      0x67, 0x2f, 0x53, 0x74, 0x72, 0x69, 0x6e, 0x67, 0x3b, 0x29, 0x56]⟩,
    ⟨.utf8, [0x43, 0x6f, 0x64, 0x65]⟩]
  accessFlags := 1
  thisClass := 2
  superClass := 0
  interfaces := []
  fields := []
  methods := [⟨8, 3, 4, [⟨5, [0, 1, 0, 0, 0, 0, 0, 2, 0x04, 0xac, 0, 0, 0, 0]⟩]⟩]
  attributes := []

/-- The program of class `A` yields 1, though its `main` has the result type `void`. -/
theorem execute_void_eq_one : ∃ classFile method after, ClassFile.parse (returningClass.encode 6) = .ok classFile ∧
    classFile.findMethod? "main" "([Ljava/lang/String;)V" = some method ∧
    Ends (execute (.bounded Recorder.hook.observer (fun _ => 0) 3) "A.class" (.ok (returningClass.encode 6)))
      (.start {} .empty) (.ok 1) after :=
  ⟨_, _, _, rfl, rfl, rfl⟩

/-- The 1 that the program of class `A` yields comes from the `ireturn` of its `main`. -/
theorem result_returned_or_zero_returningClass :
    let engine := Engine.bounded Recorder.hook.observer (fun _ => 0) 3
    engine.Faithful ∧ ∃ after, Ends (execute engine "A.class" (.ok (returningClass.encode 6))) (.start {} .empty)
      (.ok 1) after ∧ ∃ classFile method entry clock, ClassFile.parse (returningClass.encode 6) = .ok classFile ∧
        after.classes.find? "A" = some classFile ∧ classFile.findMethod? entryPoint.1 entryPoint.2 = some method ∧
        enter classFile method [] true = .ok entry ∧
        Machine.Returns ⟨after.classes, after.limits⟩ clock entry 1 := by
  intro engine
  have hengine : engine.Faithful := Engine.bounded_faithful _ _ _
  obtain ⟨after, hrun, hfound⟩ : ∃ after, Ends (execute engine "A.class" (.ok (returningClass.encode 6)))
      (.start {} .empty) (.ok 1) after ∧ after.classes.find? "A" = some returningClass := ⟨_, rfl, rfl⟩
  obtain ⟨-, -, hprograms⟩ := result_returned_or_zero hengine
  obtain ⟨bytes, classFile, className, hbytes, hparse, hname, found, method, entry, clock, hfind, hmethod, henter,
    hresult⟩ := hprograms _ _ _ _ _ hrun
  cases hbytes
  obtain rfl : returningClass = classFile := Except.ok.inj hparse
  obtain rfl : "A" = className := Except.ok.inj hname
  cases hfound.symm.trans hfind
  refine ⟨hengine, after, hrun, returningClass, method, entry, clock, hparse, hfound, hmethod, henter, ?_⟩
  rcases hresult with hreturns | ⟨hzero, -⟩
  · exact hreturns
  · exact absurd hzero (by decide)

end Session

end ClassMachine
