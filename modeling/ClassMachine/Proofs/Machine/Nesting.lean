/-
Events are nested as calls are. The events of a run are those of a tree of calls, one after the other, and their depths
say how they are nested: an event deeper than the one before it is the first of a call, and the next event that is not
deeper belongs to the same frame, at the place to which the instruction has led, or that frame is done (`Nested`).

A method without code leaves no event, and frames that are done in a row go without one. So the proof does not match
calls and returns among the events: it follows the frame of an event through the rounds (`Rounds.goes_on`), with the
invariant that the frame stays as its instruction left it, but for its stack, as long as all events are deeper.
-/
import ClassMachine.Proofs.Machine.Isolation

namespace ClassMachine

/-! ## Where an instruction leads -/

namespace Frame

/-- Whether the two topmost values differ. -/
def topmostDiffer (frame : Frame) : Bool :=
  match frame.stack.topFirst with
  | right :: left :: _ => left != right
  | _ => false

/-- The place in the code to which an instruction leads its frame; a return leads to none. -/
def placeAfter (frame : Frame) (instruction : Instruction) : Option Int :=
  match instruction.opcode, instruction.operand with
  | .goto, .offset distance => some (frame.pc + distance.toInt)
  | .ifIcmpne, .offset distance =>
    some (frame.pc + if frame.topmostDiffer then distance.toInt else instruction.length)
  | .ireturn, _ | .voidReturn, _ => none
  | _, _ => some (frame.pc + instruction.length)

end Frame

namespace Machine

open ClassMachine.Frame ClassMachine.Frame.Action

theorem branchUnlessEqual_eq_ok {distance : Int16} {length : Nat} {frame after : Frame}
    (h : branchUnlessEqual distance length frame = .ok () after) :
    (after.pc : Int) = frame.pc + if frame.topmostDiffer then distance.toInt else length := by
  obtain ⟨classFile, site, code, pc, ⟨topFirst⟩, locals, returnValue, returnsValue⟩ := frame
  rcases topFirst with _ | ⟨right, _ | ⟨left, below⟩⟩
  · cases h
  · cases h
  replace h : (if left ≠ right then branch distance else advance length)
      ⟨classFile, site, code, pc, ⟨below⟩, locals, returnValue, returnsValue⟩ = .ok () after := h
  by_cases hne : left = right
  · rw [if_neg (not_not_intro hne)] at h
    cases h
    simp [topmostDiffer, hne]
  · rw [if_pos hne, branch_eq] at h
    split at h
    · cases h
    · rename_i htarget
      cases h
      simp only [topmostDiffer, bne_iff_ne, ne_eq, hne, not_false_eq_true, if_true]
      exact Int.toNat_of_nonneg (Int.not_lt.1 htarget)

theorem placeAfter_of_goesOn {instruction : Instruction} (frame : Frame) (hgoes : instruction.opcode.goesOn = true)
    (hbranch : instruction.opcode ≠ .ifIcmpne) :
    frame.placeAfter instruction = some ((frame.pc + instruction.length : Nat) : Int) := by
  obtain ⟨opcode, operand⟩ := instruction
  cases opcode with
  | goto | ireturn | voidReturn => cases hgoes
  | ifIcmpne => exact absurd rfl hbranch
  | _ => rfl

theorem placeAfter_of_jump {instruction : Instruction} {distance : Int16} (frame : Frame)
    (hform : instruction.opcode.form = .offset) (hoperand : instruction.operand = .offset distance)
    (hbranch : instruction.opcode ≠ .ifIcmpne) :
    frame.placeAfter instruction = some (frame.pc + distance.toInt) := by
  obtain ⟨opcode, operand⟩ := instruction
  cases hoperand
  cases opcode with
  | goto => rfl
  | ifIcmpne => exact absurd rfl hbranch
  | _ => cases hform

/-- An instruction that is executed leads its frame to the place that it says, or to the end of the code. -/
theorem placeAfter_of_execute {machine : Machine} {depth : Nat} {instruction : Instruction} {frame after : Frame}
    {call : Option Call} (h : machine.execute depth instruction frame = .ok call after) :
    frame.placeAfter instruction = some (after.pc : Int) ∨ after.isDone = true := by
  by_cases hbranch : instruction.opcode = .ifIcmpne
  · obtain ⟨opcode, operand⟩ := instruction
    cases hbranch
    cases operand with
    | offset distance =>
      obtain ⟨_, middle, hbranch, hok⟩ := bind_eq_ok_iff.1 h
      cases hok
      left
      rw [branchUnlessEqual_eq_ok hbranch]
      rfl
    | _ => cases h
  obtain ⟨-, hmoves⟩ | ⟨index, rfl, -, dispatch, -, rfl⟩ := execute_eq_ok h
  · cases hmoves with
    | onward stack hgoes => exact .inl (placeAfter_of_goesOn frame hgoes hbranch)
    | @jump stack distance hform hoperand htarget =>
      left
      rw [Int.toNat_of_nonneg htarget]
      exact placeAfter_of_jump frame hform hoperand hbranch
    | ireturn => exact .inr (decide_eq_true (Nat.le_refl _))
    | voidReturn => exact .inr (decide_eq_true (Nat.le_refl _))
  · exact .inl rfl

end Machine

/-! ## Rounds and the events they tell -/

/-- The event tells of the instruction that the top frame of a state has reached. -/
structure Event.TellsOf (event : Event) (state : Machine.State) : Prop where
  className : event.className = state.stack.top.site.className
  method : event.method = state.stack.top.site.method
  depth : event.depth = state.stack.depth
  pc : event.pc = state.stack.top.pc
  decode_eq : Instruction.decode state.stack.top.code.bytes state.stack.top.pc = .ok event.instruction

theorem Event.TellsOf.not_isDone {event : Event} {state : Machine.State} (h : event.TellsOf state) :
    state.stack.top.isDone = false :=
  Frame.not_isDone_of_decode h.decode_eq

namespace Machine

open ClassMachine.Frame

/-- A round that executes the instruction of an event: it turns the top frame into `after`, and adds the frame of a
call if it is one. -/
structure Executes (machine : Machine) (state : State) (event : Event) (call : Option Call) (after : Frame)
    (next : State) : Prop where
  tellsOf : event.TellsOf state
  execute_eq : machine.execute state.stack.depth event.instruction state.stack.top = .ok call after
  frames_eq : next.stack.frames = (call.map Call.callee).toList ++ after :: state.stack.callers

variable {machine : Machine} {clock : Nat → Nat}

/-- A round that goes on takes away a frame that is done and tells no event, or tells one and executes its
instruction. -/
theorem round_told {elapsed : Nat} {state next : State} {notices : List Notice}
    (h : machine.round elapsed state = .next next notices) :
    (eventsOf notices = [] ∧ state.stack.top.isDone = true ∧ state.stack.depth = next.stack.depth + 1) ∨
      ∃ event call after, eventsOf notices = [event] ∧ machine.Executes state event call after next := by
  have hcase := round_cases machine elapsed state
  rw [h] at hcase
  generalize hresult : Round.next next notices = result at hcase
  cases hcase with
  | finish => cases hresult
  | limit => cases hresult
  | undecodable => cases hresult
  | complete callers hdone hpop =>
    cases hresult
    refine .inl ⟨rfl, hdone, ?_⟩
    rw [CallStack.depth_resume]
    exact CallStack.depth_of_pop? hpop
  | perform instruction _ _ hdecode =>
    unfold perform at hresult
    rcases hexecute : machine.execute state.stack.depth instruction state.stack.top with
      ⟨_ | call, after⟩ | ⟨failure, after⟩
    · rw [hexecute] at hresult
      cases hresult
      exact .inr ⟨_, none, after, rfl, ⟨rfl, rfl, rfl, rfl, hdecode⟩, hexecute, rfl⟩
    · rw [hexecute] at hresult
      cases hresult
      exact .inr ⟨_, some call, after, rfl, ⟨rfl, rfl, rfl, rfl, hdecode⟩, hexecute, rfl⟩
    · rw [hexecute] at hresult
      cases hresult

theorem round_executes {elapsed : Nat} {state next : State} {notices : List Notice} {event : Event}
    (h : machine.round elapsed state = .next next notices) (hevents : eventsOf notices = [event]) :
    ∃ call after, machine.Executes state event call after next := by
  rcases round_told h with ⟨hnone, -⟩ | ⟨_, call, after, hone, hexecutes⟩
  · rw [hevents] at hnone
    cases hnone
  · rw [hevents] at hone
    cases hone
    exact ⟨call, after, hexecutes⟩

theorem Executes.sameActivation {state next : State} {event : Event} {call : Option Call} {after : Frame}
    (h : machine.Executes state event call after next) : SameActivation state.stack.top after := by
  obtain ⟨-, hmoves⟩ | ⟨_, _, _, dispatch, -, rfl⟩ := execute_eq_ok h.execute_eq
  · exact hmoves.sameActivation
  · exact dispatch.waiting_sameActivation

/-- A frame that has executed the instruction of an event and is on top again, with whatever values on its stack, is the
same activation at the same depth. It stands where the instruction has led it, unless it is done. -/
theorem Executes.on_top {state next later : State} {event : Event} {call : Option Call} {after : Frame}
    {stack : OperandStack} (h : machine.Executes state event call after next)
    (hframes : later.stack.frames = { after with stack } :: state.stack.callers) :
    later.stack.depth = event.depth ∧ SameActivation state.stack.top later.stack.top ∧
      (state.stack.top.placeAfter event.instruction = some (later.stack.top.pc : Int) ∨
        later.stack.top.isDone = true) := by
  obtain ⟨htop, -⟩ := List.cons.inj hframes
  have hplace := placeAfter_of_execute h.execute_eq
  rw [htop]
  refine ⟨?_, h.sameActivation.trans ⟨rfl, rfl, rfl, rfl, rfl⟩, hplace⟩
  rw [← CallStack.length_frames, hframes, h.tellsOf.depth, state.stack.depth_eq]
  rfl

/-- Rounds that tell an event are the rounds before it, the one that tells it and those after it. -/
theorem Rounds.split_event {n : Nat} {first last : State} {notices : List Notice} {before rest : List Event}
    {event : Event} (h : Rounds machine clock n first notices last)
    (hevents : eventsOf notices = before ++ event :: rest) :
    ∃ m k state next told shown more, Rounds machine clock m first told state ∧ eventsOf told = before ∧
      machine.round (clock state.executed) state = .next next shown ∧ eventsOf shown = [event] ∧
      Rounds machine clock k next more last ∧ eventsOf more = rest := by
  induction h generalizing before with
  | refl => simp at hevents
  | @cons count state next last shown notices hround hrest ih =>
    rw [eventsOf_append] at hevents
    rcases round_told hround with ⟨hquiet, -⟩ | ⟨told, _, _, hone, -⟩
    · rw [hquiet] at hevents
      obtain ⟨m, k, middle, after, told, tells, more, hfirst, hbefore, hstep⟩ := ih hevents
      exact ⟨m + 1, k, middle, after, shown ++ told, tells, more, .cons hround hfirst, by simp [hquiet, hbefore], hstep⟩
    · rw [hone] at hevents
      rcases before with _ | ⟨head, before⟩
      · obtain ⟨rfl, hmore⟩ := List.cons.inj hevents
        exact ⟨0, count, state, next, [], shown, notices, .refl state, rfl, hround, hone, hrest, hmore⟩
      · obtain ⟨rfl, hmore⟩ := List.cons.inj hevents
        obtain ⟨m, k, middle, after, told, tells, more, hfirst, hbefore, hstep⟩ := ih hmore
        exact ⟨m + 1, k, middle, after, shown ++ told, tells, more, .cons hround hfirst, by simp [hone, hbefore], hstep⟩

/-- Rounds that tell no event each take a frame away. -/
theorem Rounds.depth_of_quiet {n : Nat} {first last : State} {notices : List Notice}
    (h : Rounds machine clock n first notices last) (hquiet : eventsOf notices = []) :
    first.stack.depth = last.stack.depth + n := by
  induction h with
  | refl => rfl
  | cons hround _ ih =>
    rw [eventsOf_append, List.append_eq_nil_iff] at hquiet
    have hrest := ih hquiet.2
    rcases round_told hround with ⟨-, -, hdepth⟩ | ⟨_, _, _, hone, -⟩
    · omega
    · rw [hone] at hquiet
      cases hquiet.1

/-! ## The frame of an event -/

/-- The frames end with those of `base`, and right above them stands the given frame, with whatever values on its
stack. -/
def StandsOn (frame : Frame) (base frames : List Frame) : Prop :=
  ∃ above stack, frames = above ++ { frame with stack } :: base

theorem StandsOn.lt_length {frame : Frame} {base frames : List Frame} (h : StandsOn frame base frames) :
    base.length < frames.length := by
  obtain ⟨above, stack, rfl⟩ := h
  simp only [List.length_append, List.length_cons]
  omega

/-- A frame that stands right above `base` and has none above it is on top. -/
theorem StandsOn.eq_cons {frame : Frame} {base frames : List Frame} (h : StandsOn frame base frames)
    (hlength : frames.length ≤ base.length + 1) : ∃ stack, frames = { frame with stack } :: base := by
  obtain ⟨above, stack, rfl⟩ := h
  simp only [List.length_append, List.length_cons] at hlength
  obtain rfl : above = [] := List.eq_nil_of_length_eq_zero (by omega)
  exact ⟨stack, rfl⟩

/-- A round keeps a frame that has others above it, but for its stack. -/
theorem FrameStep.keeps_frame {frame : Frame} {base frames next : List Frame} (h : FrameStep machine frames next)
    (hstands : StandsOn frame base frames) (hdeep : base.length + 1 < frames.length) : StandsOn frame base next := by
  obtain ⟨above, stack, hframes⟩ := hstands
  rcases above with _ | ⟨top, above⟩
  · rw [hframes, List.nil_append, List.length_cons] at hdeep
    omega
  cases h with
  | @back done caller below =>
    obtain ⟨rfl, hbelow⟩ := List.cons.inj hframes
    rcases above with _ | ⟨second, above⟩
    · obtain ⟨rfl, rfl⟩ := List.cons.inj hbelow
      obtain ⟨stack, hhanded⟩ := Frame.handed_eq { frame with stack } done
      exact ⟨[], stack, by rw [hhanded]; rfl⟩
    · obtain ⟨rfl, rfl⟩ := List.cons.inj hbelow
      exact ⟨caller.handed done :: above, stack, rfl⟩
  | @step _ after =>
    obtain ⟨rfl, rfl⟩ := List.cons.inj hframes
    exact ⟨after :: above, stack, rfl⟩
  | @call _ _ _ _ _ _ dispatch =>
    obtain ⟨rfl, rfl⟩ := List.cons.inj hframes
    exact ⟨dispatch.callee :: dispatch.waiting :: above, stack, rfl⟩

theorem Above.cons {floor : Nat} {first second last : State} {notices : List Notice}
    (hround : machine.round (clock first.executed) first = .next second notices) (hdeep : floor < first.stack.depth)
    (h : Above machine clock floor second last) : Above machine clock floor first last := by
  induction h with
  | refl hsecond => exact .next (.refl hdeep) hround hsecond
  | next _ hnext hlast ih => exact .next ih hnext hlast

/-- Rounds that start with few frames and tell of deeper ones only tell nothing, and frames only go. -/
theorem Rounds.quiet_of_shallow {n floor : Nat} {first last : State} {notices : List Notice}
    (h : Rounds machine clock n first notices last) (hshallow : first.stack.depth ≤ floor)
    (hdeep : ∀ event ∈ eventsOf notices, floor < event.depth) :
    eventsOf notices = [] ∧ last.stack.depth ≤ floor := by
  induction h with
  | refl => exact ⟨rfl, hshallow⟩
  | cons hround _ ih =>
    rw [eventsOf_append] at hdeep ⊢
    obtain ⟨hshown, hrest⟩ := List.forall_mem_append.1 hdeep
    rcases round_told hround with ⟨hquiet, -, hdepth⟩ | ⟨event, _, _, hone, hexecutes⟩
    · obtain ⟨hnone, hlast⟩ := ih (by omega) hrest
      exact ⟨by rw [hquiet, hnone, List.append_nil], hlast⟩
    · have hlt := hshown event (by rw [hone]; exact List.mem_singleton_self event)
      rw [hexecutes.tellsOf.depth] at hlt
      omega

/-- As long as all events are deeper than a frame, it stays as it is, but for its stack, or it is done. -/
theorem Rounds.goes_on {n : Nat} {state last : State} {notices : List Notice} {frame : Frame} {base : List Frame}
    (h : Rounds machine clock n state notices last) (hstands : StandsOn frame base state.stack.frames)
    (hdeep : ∀ event ∈ eventsOf notices, base.length + 1 < event.depth) :
    (StandsOn frame base last.stack.frames ∧ Above machine clock base.length state last) ∨
      (last.stack.depth ≤ base.length ∧ ∃ m told ended stack, Rounds machine clock m state told ended ∧
        eventsOf told = eventsOf notices ∧ Above machine clock base.length state ended ∧
        ended.stack.frames = { frame with stack } :: base ∧ ended.stack.top.isDone = true) := by
  have hlength := hstands.lt_length
  rw [CallStack.length_frames] at hlength
  induction h with
  | refl state => exact .inl ⟨hstands, .refl hlength⟩
  | @cons count state next last shown notices hround hrest ih =>
    rw [eventsOf_append] at hdeep
    obtain ⟨hshown, hlater⟩ := List.forall_mem_append.1 hdeep
    by_cases htop : state.stack.depth ≤ base.length + 1
    · -- the frame is on top, and an instruction of it would be told, so it is done and goes
      obtain ⟨stack, hframes⟩ := hstands.eq_cons (by rwa [CallStack.length_frames])
      rcases round_told hround with ⟨hquiet, hdone, hdepth⟩ | ⟨event, _, _, hone, hexecutes⟩
      · have hshallow : next.stack.depth ≤ base.length := by omega
        obtain ⟨hnone, hlast⟩ := hrest.quiet_of_shallow hshallow
          fun event hevent => Nat.lt_of_succ_lt (hlater event hevent)
        refine .inr ⟨hlast, 0, [], state, stack, .refl state, ?_, .refl hlength, hframes, hdone⟩
        rw [eventsOf_append, hquiet, hnone]
        rfl
      · have hlt := hshown event (by rw [hone]; exact List.mem_singleton_self event)
        rw [hexecutes.tellsOf.depth] at hlt
        omega
    · have hnext : StandsOn frame base next.stack.frames := by
        apply (round_frames hround).keeps_frame hstands
        rw [CallStack.length_frames]
        omega
      have hnextLength := hnext.lt_length
      rw [CallStack.length_frames] at hnextLength
      rcases ih hnext hlater hnextLength with
        ⟨hlast, habove⟩ | ⟨hlast, m, told, ended, stack, hrounds, htold, habove, hended⟩
      · exact .inl ⟨hlast, .cons hround hlength habove⟩
      · have hevents : eventsOf (shown ++ told) = eventsOf (shown ++ notices) := by
          rw [eventsOf_append, eventsOf_append, htold]
        exact .inr ⟨hlast, m + 1, shown ++ told, ended, stack, .cons hround hrounds, hevents,
          .cons hround hlength habove, hended⟩

/-! ## Nested events -/

/-- How the frame of an event that is told in the state `first` goes on until the next event that is not deeper, which
is told in the state `last`. -/
inductive FrameGoesOn (machine : Machine) (clock : Nat → Nat) (event later : Event) (first last : State)
    (Passed : State → Prop) : Prop
  /-- The event is of the same frame, at the place to which the instruction has led. -/
  | same (hdepth : later.depth = event.depth) (habove : Above machine clock (event.depth - 1) first last)
      (hsame : SameActivation first.stack.top last.stack.top)
      (hplace : first.stack.top.placeAfter event.instruction = some (later.pc : Int))
  /-- The frame is done by then, and the event is of a frame below it. -/
  | done {ended : State} (hdepth : later.depth < event.depth) (hpassed : Passed ended)
      (habove : Above machine clock (event.depth - 1) first ended) (hended : ended.stack.depth = event.depth)
      (hsame : SameActivation first.stack.top ended.stack.top) (hdone : ended.stack.top.isDone = true)

/-- The events are nested as the calls are that they tell of; `Reached` says in which states these events, and no more
of them, are told. -/
structure Nested (machine : Machine) (clock : Nat → Nat) (Reached : List Event → State → Prop)
    (events : List Event) : Prop where
  first : ∀ event rest, events = event :: rest → event.depth = 1 ∧ event.pc = 0
  /-- Only a call leads deeper, by one frame and to the front of its code. -/
  deeper : ∀ before event next rest, events = before ++ event :: next :: rest → event.depth < next.depth →
    event.instruction.opcode = .invokestatic ∧ next.depth = event.depth + 1 ∧ next.pc = 0
  /-- The next event that is not deeper is of the same frame, or that frame is done. -/
  onward : ∀ before event between later rest, events = before ++ event :: (between ++ later :: rest) →
    (∀ inner ∈ between, event.depth < inner.depth) → later.depth ≤ event.depth →
    ∃ first last, Reached before first ∧ event.TellsOf first ∧ Reached (before ++ event :: between) last ∧
      later.TellsOf last ∧ FrameGoesOn machine clock event later first last (Reached (before ++ event :: between))

theorem FrameGoesOn.mono {event later : Event} {first last : State} {Passed Passed' : State → Prop}
    (h : FrameGoesOn machine clock event later first last Passed) (himp : ∀ state, Passed state → Passed' state) :
    FrameGoesOn machine clock event later first last Passed' := by
  cases h with
  | same hdepth habove hsame hplace => exact .same hdepth habove hsame hplace
  | done hdepth hpassed habove hended hsame hdone =>
    exact .done hdepth (himp _ hpassed) habove hended hsame hdone

theorem Nested.mono {Reached Reached' : List Event → State → Prop} {events : List Event}
    (h : Nested machine clock Reached events) (himp : ∀ events state, Reached events state → Reached' events state) :
    Nested machine clock Reached' events where
  first := h.first
  deeper := h.deeper
  onward before event between later rest hevents hdeep hle := by
    obtain ⟨first, last, hfirst, hevent, hlast, hlater, hgoes⟩ :=
      h.onward before event between later rest hevents hdeep hle
    exact ⟨first, last, himp _ _ hfirst, hevent, himp _ _ hlast, hlater, hgoes.mono (himp _)⟩

/-- Rounds from the start of a method lead to a state and tell these events. -/
def ReachedFrom (machine : Machine) (clock : Nat → Nat) (entry : Frame) (events : List Event) (state : State) : Prop :=
  ∃ n notices, Rounds machine clock n (.ofEntry entry) notices state ∧ eventsOf notices = events

theorem ReachedFrom.onward {entry : Frame} {before : List Event} {event : Event} {n : Nat} {state next last : State}
    {shown more : List Notice} (h : ReachedFrom machine clock entry before state)
    (hround : machine.round (clock state.executed) state = .next next shown) (hshown : eventsOf shown = [event])
    (hrest : Rounds machine clock n next more last) :
    ReachedFrom machine clock entry (before ++ event :: eventsOf more) last := by
  obtain ⟨m, notices, hrounds, rfl⟩ := h
  refine ⟨_, _, hrounds.trans (.cons hround hrest), ?_⟩
  rw [eventsOf_append, eventsOf_append, hshown]
  rfl

/-- The first event is told in the first state. -/
theorem Rounds.first_event {n : Nat} {entry : Frame} {last : State} {notices : List Notice} {event : Event}
    {rest : List Event} (h : Rounds machine clock n (.ofEntry entry) notices last)
    (hevents : eventsOf notices = event :: rest) : event.TellsOf (.ofEntry entry) := by
  have hsplit : eventsOf notices = [] ++ event :: rest := hevents
  obtain ⟨m, k, state, next, told, shown, more, hquiet, hnone, hround, hshown, -⟩ := h.split_event hsplit
  have hdepth : 1 = state.stack.depth + m := hquiet.depth_of_quiet hnone
  have hpos := state.stack.depth_pos
  obtain rfl : m = 0 := by omega
  cases hquiet
  obtain ⟨call, after, hexecutes⟩ := round_executes hround hshown
  exact hexecutes.tellsOf

/-- An event is deeper than the one before it only if that one is of a call, and then it is the first of the method
called. -/
theorem Rounds.deeper_event {n : Nat} {first last : State} {notices : List Notice} {before rest : List Event}
    {event later : Event} (h : Rounds machine clock n first notices last)
    (hevents : eventsOf notices = before ++ event :: later :: rest) (hdeeper : event.depth < later.depth) :
    event.instruction.opcode = .invokestatic ∧ later.depth = event.depth + 1 ∧ later.pc = 0 := by
  obtain ⟨_, _, state, next, _, shown, more, -, -, hround, hshown, hmore, hrest⟩ := h.split_event hevents
  have hsplit : eventsOf more = [] ++ later :: rest := hrest
  obtain ⟨m, _, reached, _, told, tells, _, hquiet, hnone, hlater, htells, -⟩ := hmore.split_event hsplit
  obtain ⟨_, _, hexecutes⟩ := round_executes hround hshown
  obtain ⟨_, _, hexecutes'⟩ := round_executes hlater htells
  have hdepth := hexecutes.tellsOf.depth
  have hdepth' := hexecutes'.tellsOf.depth
  have hcount := hquiet.depth_of_quiet hnone
  have hlonger : state.stack.callers.length + 1 < next.stack.frames.length := by
    rw [CallStack.length_frames, ← state.stack.depth_eq]
    omega
  obtain ⟨index, dispatch, hdecode, hcalled⟩ := (round_frames hround).call_of_longer hlonger
  have hlength := congrArg List.length hcalled
  rw [CallStack.length_frames, List.length_cons, List.length_cons, ← state.stack.depth_eq] at hlength
  -- the frame of the call is still there, so no round has come in between
  obtain rfl : m = 0 := by omega
  cases hquiet
  have hinstruction : event.instruction = ⟨.invokestatic, .index index⟩ :=
    Except.ok.inj (hexecutes.tellsOf.decode_eq.symm.trans hdecode)
  obtain ⟨htop, -⟩ := List.cons.inj hcalled
  refine ⟨by rw [hinstruction], by omega, ?_⟩
  rw [hexecutes'.tellsOf.pc, htop]
  rfl

/-- The frame of an event is followed up to the next event that is not deeper. -/
theorem Rounds.onward_event {n : Nat} {entry : Frame} {final : State} {notices : List Notice}
    {before between rest : List Event} {event later : Event}
    (h : Rounds machine clock n (.ofEntry entry) notices final)
    (hevents : eventsOf notices = before ++ event :: (between ++ later :: rest))
    (hdeep : ∀ inner ∈ between, event.depth < inner.depth) (hle : later.depth ≤ event.depth) :
    ∃ first last, ReachedFrom machine clock entry before first ∧ event.TellsOf first ∧
      ReachedFrom machine clock entry (before ++ event :: between) last ∧ later.TellsOf last ∧
      FrameGoesOn machine clock event later first last
        (ReachedFrom machine clock entry (before ++ event :: between)) := by
  obtain ⟨m, _, first, next, told, shown, more, hfirst, hbefore, hround, hshown, hmore, hrest⟩ := h.split_event hevents
  obtain ⟨_, _, last, _, inner, tells, _, hinner, hbetween, hlater, htells, -⟩ := hmore.split_event hrest
  obtain ⟨call, after, hexecutes⟩ := round_executes hround hshown
  obtain ⟨_, _, hexecutes'⟩ := round_executes hlater htells
  have hevent := hexecutes.tellsOf
  have hlater := hexecutes'.tellsOf
  have hreached : ReachedFrom machine clock entry before first := ⟨m, told, hfirst, hbefore⟩
  have hbase : event.depth = first.stack.callers.length + 1 := hevent.depth.trans first.stack.depth_eq
  have hlaterDepth : later.depth = last.stack.depth := hlater.depth
  have hfloor : event.depth - 1 = first.stack.callers.length := by omega
  have hlow : first.stack.callers.length < first.stack.depth := by
    rw [first.stack.depth_eq]
    omega
  have hstands : StandsOn after first.stack.callers next.stack.frames :=
    ⟨_, after.stack, hexecutes.frames_eq⟩
  refine ⟨first, last, hreached, hevent, hbetween ▸ hreached.onward hround hshown hinner, hlater, ?_⟩
  rw [← hbetween, hbase] at hdeep
  rcases hinner.goes_on hstands hdeep with
    ⟨hlast, habove⟩ | ⟨hlast, _, passed, ended, stack, hended, hpassed, habove, hframes, hdone⟩
  · -- the event is not deeper than the frame, so the frame is on top, and it executes an instruction
    have hlength : last.stack.frames.length ≤ first.stack.callers.length + 1 := by
      rw [CallStack.length_frames]
      omega
    obtain ⟨stack, hframes⟩ := hlast.eq_cons hlength
    obtain ⟨hdepth, hsame, hplace⟩ := hexecutes.on_top hframes
    rw [hlater.not_isDone, ← hlater.pc] at hplace
    exact .same (by omega) (hfloor ▸ .cons hround hlow habove) hsame (hplace.resolve_right (by decide))
  · obtain ⟨hdepth, hsame, -⟩ := hexecutes.on_top hframes
    have hreached' := hreached.onward hround hshown hended
    rw [hpassed, hbetween] at hreached'
    exact .done (by omega) hreached' (hfloor ▸ .cons hround hlow habove) hdepth hsame hdone

/-- Rounds from the start of a method tell nested events. -/
theorem Rounds.nested {n : Nat} {entry : Frame} {last : State} {notices : List Notice}
    (h : Rounds machine clock n (.ofEntry entry) notices last) (hentry : entry.pc = 0) :
    Nested machine clock (ReachedFrom machine clock entry) (eventsOf notices) where
  first event rest hevents := by
    have hfirst := h.first_event hevents
    exact ⟨hfirst.depth, hfirst.pc.trans hentry⟩
  deeper before event next rest hevents hdeeper := h.deeper_event hevents hdeeper
  onward before event between later rest hevents hdeep hle := h.onward_event hevents hdeep hle

end Machine

end ClassMachine
