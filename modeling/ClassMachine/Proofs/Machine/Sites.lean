/-
Sites name methods. A frame gets its site when its method is entered, from the class and the method; where classes
can be looked up in full, no stand-in is needed for a name. So in a run over such classes every frame, every event
and the place of a failure name a method of a known class by its own names (`MethodHalts.resolved`).
-/
import ClassMachine.Proofs.ClassFile.Resolution
import ClassMachine.Proofs.Machine.Faults
import ClassMachine.Proofs.Machine.Rounds

namespace ClassMachine

/-- The site has the names of a known class and of a method in it, as they were looked up. -/
def Site.Resolved (known : ClassFile → Prop) (site : Site) : Prop :=
  ∃ classFile method, known classFile ∧ method ∈ classFile.methods ∧ classFile.name = .ok site.className ∧
    method.name classFile.pool = .ok site.method ∧ method.descriptor classFile.pool = .ok site.descriptor

/-- The site has the names of this method and of its class, as they are looked up. -/
structure Site.Names (site : Site) (classFile : ClassFile) (method : Member) : Prop where
  className_eq : classFile.name = .ok site.className
  name_eq : method.name classFile.pool = .ok site.method
  descriptor_eq : method.descriptor classFile.pool = .ok site.descriptor

/-- Where the notice names a method, it does so by names that were looked up. -/
def Notice.Resolved (known : ClassFile → Prop) : Notice → Prop
  | started site _ | returned site _ => site.Resolved known
  | executed event => ∃ descriptor, Site.Resolved known ⟨event.className, event.method, descriptor⟩
  | _ => True

/-- The failure has a place, and the place is in a method by names that were looked up. -/
def Failure.Placed (known : ClassFile → Prop) (failure : Failure) : Prop :=
  ∃ location, failure.location = some location ∧ location.site.Resolved known

section

variable {known : ClassFile → Prop}

theorem ClassFile.Linked.names {classFile : ClassFile} (h : classFile.Linked) {method : Member}
    (hmethod : method ∈ classFile.methods) : (classFile.site method).Names classFile method := by
  obtain ⟨className, hclass⟩ := h.thisClass
  obtain ⟨name, hname⟩ := (h.methods method hmethod).name
  obtain ⟨descriptor, hdescriptor⟩ := (h.methods method hmethod).descriptor
  refine ⟨?_, ?_, ?_⟩
  · show classFile.name = .ok (classFile.name.toOption.getD "<unknown>")
    rw [show classFile.name = .ok className from hclass]
    rfl
  · show method.name classFile.pool = .ok ((method.name classFile.pool).toOption.getD "<unknown>")
    rw [show method.name classFile.pool = .ok name from hname]
    rfl
  · show method.descriptor classFile.pool = .ok ((method.descriptor classFile.pool).toOption.getD "")
    rw [show method.descriptor classFile.pool = .ok descriptor from hdescriptor]
    rfl

theorem ClassFile.Linked.site {classFile : ClassFile} (h : classFile.Linked) (hknown : known classFile)
    {method : Member} (hmethod : method ∈ classFile.methods) : (classFile.site method).Resolved known := by
  obtain ⟨hclass, hname, hdescriptor⟩ := h.names hmethod
  exact ⟨classFile, method, hknown, hmethod, hclass, hname, hdescriptor⟩

/-- A failure that names no place is placed where it is found. -/
theorem Failure.placed_locate {failure : Failure} {location : Location} (h : location.site.Resolved known)
    (hfailure : failure.location = none ∨ failure.Placed known) : (failure.locate location).Placed known := by
  unfold Failure.locate Failure.Placed
  dsimp only
  rcases hfailure with hnone | ⟨closer, hsome, hcloser⟩
  · rw [hnone]
    exact ⟨location, rfl, h⟩
  · rw [hsome]
    exact ⟨closer, rfl, hcloser⟩

end

namespace Machine

open ClassMachine.Frame

/-- All frames are of methods by names that were looked up. -/
def State.Resolved (known : ClassFile → Prop) (state : State) : Prop :=
  ∀ frame ∈ state.stack.frames, frame.site.Resolved known

def Halt.Resolved (known : ClassFile → Prop) (halt : Halt) : Prop :=
  ∀ failure, halt.outcome = .error failure → failure.Placed known

/-- The state that a round leads to is resolved, or the end of the run is, and so is what the round tells. -/
def Round.Resolved (known : ClassFile → Prop) : Round → Prop
  | .next state notices => state.Resolved known ∧ ∀ notice ∈ notices, notice.Resolved known
  | .halt final notices => final.Resolved known ∧ ∀ notice ∈ notices, notice.Resolved known

section

variable {machine : Machine} {known : ClassFile → Prop}
  (hclasses : ∀ name classFile, machine.classes.find? name = some classFile → known classFile ∧ classFile.Linked)

include hclasses

theorem resolve_site {caller : ClassFile} {index : UInt16} {target : Target}
    (h : machine.resolve caller index = .ok target) : (target.classFile.site target.method).Resolved known := by
  obtain ⟨-, hfind, hmethod, -⟩ := resolve_eq_ok h
  obtain ⟨hknown, hlinked⟩ := hclasses _ _ hfind
  exact hlinked.site hknown (List.mem_of_find?_eq_some hmethod)

/-- An instruction stays at its site, and a call leads to a site that is resolved. -/
theorem execute_site {depth : Nat} {instruction : Instruction} {frame after : Frame} {call : Option Call}
    (h : machine.execute depth instruction frame = .ok call after) :
    after.site = frame.site ∧ ∀ made, call = some made → made.callee.site.Resolved known := by
  obtain ⟨rfl, hmoves⟩ | ⟨index, -, -, dispatch, rfl, rfl⟩ := execute_eq_ok h
  · exact ⟨hmoves.sameActivation.site, nofun⟩
  · refine ⟨rfl, fun made heq => ?_⟩
    cases heq
    exact resolve_site hclasses dispatch.resolve_eq

theorem execute_placed {depth : Nat} {instruction : Instruction} {frame after : Frame} {failure : Failure}
    (h : machine.execute depth instruction frame = .error failure after) :
    failure.location = none ∨ failure.Placed known := by
  rcases execute_error h with ⟨fault, rfl, -⟩ | ⟨index, -, target, error, hresolve, -, rfl⟩
  · exact .inl rfl
  · -- the place is the start of the method that was called
    exact .inr (Failure.placed_locate (resolve_site hclasses hresolve) (.inl rfl))

theorem perform_resolved {state : State} (h : state.Resolved known) (instruction : Instruction) :
    (machine.perform state instruction).Resolved known := by
  obtain ⟨htop, hcallers⟩ := List.forall_mem_cons.1 h
  unfold perform
  rcases hexecute : machine.execute state.stack.depth instruction state.stack.top with
    ⟨_ | call, after⟩ | ⟨failure, after⟩
  · obtain ⟨hsite, -⟩ := execute_site hclasses hexecute
    refine ⟨List.forall_mem_cons.2 ⟨?_, hcallers⟩, List.forall_mem_singleton.2 ⟨_, htop⟩⟩
    show after.site.Resolved known
    rw [hsite]
    exact htop
  · obtain ⟨hsite, hcallee⟩ := execute_site hclasses hexecute
    refine ⟨List.forall_mem_cons.2 ⟨hcallee call rfl, List.forall_mem_cons.2 ⟨?_, hcallers⟩⟩,
      List.forall_mem_cons.2 ⟨trivial, List.forall_mem_singleton.2 ⟨_, htop⟩⟩⟩
    show after.site.Resolved known
    rw [hsite]
    exact htop
  · refine ⟨fun _ heq => ?_, fun _ h => nomatch h⟩
    cases heq
    exact Failure.placed_locate htop (execute_placed hclasses hexecute)

/-- A round keeps all sites resolved. -/
theorem round_resolved (elapsed : Nat) {state : State} (h : state.Resolved known) :
    (machine.round elapsed state).Resolved known := by
  have htop : state.stack.top.site.Resolved known := h _ List.mem_cons_self
  have habort (fault : Fault) (executed : Nat) : (state.abort (.ofFault fault) executed).Resolved known := by
    refine ⟨fun _ heq => ?_, fun _ h => nomatch h⟩
    cases heq
    exact Failure.placed_locate htop (.inl rfl)
  have hcase := round_cases machine elapsed state
  generalize machine.round elapsed state = result at hcase ⊢
  cases hcase with
  | finish =>
    refine ⟨fun _ heq => ?_, List.forall_mem_singleton.2 htop⟩
    cases heq
  | complete callers _ hpop =>
    refine ⟨?_, List.forall_mem_singleton.2 htop⟩
    have hbelow : ∀ frame ∈ callers.frames, frame.site.Resolved known := fun frame hframe =>
      h frame (by rw [CallStack.frames_of_pop? hpop]; exact List.mem_cons_of_mem _ hframe)
    obtain ⟨hcaller, hcallers⟩ := List.forall_mem_cons.1 hbelow
    unfold State.Resolved
    rw [CallStack.frames_resume]
    refine List.forall_mem_cons.2 ⟨?_, hcallers⟩
    obtain ⟨stack, hhanded⟩ := callers.top.handed_eq state.stack.top
    rw [hhanded]
    exact hcaller
  | limit => exact habort _ _
  | undecodable => exact habort _ _
  | perform instruction => exact perform_resolved hclasses h instruction

theorem Halts.resolved {clock : Nat → Nat} {n : Nat} {state : State} {notices : List Notice} {halt : Halt}
    (h : Halts machine clock n state notices halt) (hstate : state.Resolved known) :
    halt.Resolved known ∧ ∀ notice ∈ notices, notice.Resolved known := by
  induction h with
  | @last state _ _ hround =>
    have hresolved := round_resolved hclasses (clock state.executed) hstate
    rwa [hround] at hresolved
  | @cons _ state _ _ _ _ hround _ ih =>
    have hresolved := round_resolved hclasses (clock state.executed) hstate
    rw [hround] at hresolved
    obtain ⟨hhalt, hrest⟩ := ih hresolved.1
    exact ⟨hhalt, List.forall_mem_append.2 ⟨hresolved.2, hrest⟩⟩

/-- The run of a method whose class can be looked up in full, over classes that can, names methods by their own
names only. -/
theorem MethodHalts.resolved {clock : Nat → Nat} {classFile : ClassFile} {method : Member}
    {arguments : List Int32} {notices : List Notice} {halt : Halt}
    (h : MethodHalts machine clock classFile method arguments notices halt) (hlinked : classFile.Linked)
    (hknown : known classFile) (hmethod : method ∈ classFile.methods) :
    halt.Resolved known ∧ ∀ notice ∈ notices, notice.Resolved known := by
  have hsite : (classFile.site method).Resolved known := hlinked.site hknown hmethod
  cases h with
  | unentered =>
    refine ⟨fun _ heq => ?_, fun _ h => nomatch h⟩
    cases heq
    exact Failure.placed_locate hsite (.inl rfl)
  | entered henter hhalts =>
    obtain ⟨code, -, rfl⟩ := enter_eq_ok henter
    obtain ⟨hhalt, hrest⟩ := hhalts.resolved hclasses (List.forall_mem_singleton.2 hsite)
    exact ⟨hhalt, List.forall_mem_cons.2 ⟨hsite, hrest⟩⟩

end

end Machine

end ClassMachine
