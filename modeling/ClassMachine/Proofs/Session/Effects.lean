/-
What the operations of a session do. An operation tells notices, leaves a table of classes behind and
yields a result; none of these depend on the observer. Loading can go four ways, which `LoadCase`
lists; a call runs a method over the classes there are and leaves them alone.
-/
import ClassMachine.Proofs.ClassFile.RoundTrip
import ClassMachine.Proofs.Machine.Rounds
import ClassMachine.Session.Operations

namespace ClassMachine

/-! ## Notices of a run -/

/-- The notice is one that the machine tells during a run. -/
def Notice.OfRun : Notice → Prop
  | started .. | called .. | executed .. | returned .. => True
  | _ => False

namespace Machine

theorem perform_notices (machine : Machine) (state : State) (instruction : Instruction) :
    ∀ notice ∈ (machine.perform state instruction).notices, notice.OfRun := by
  unfold perform
  split
  · exact fun _ h => nomatch h
  · exact List.forall_mem_singleton.2 trivial
  · exact List.forall_mem_cons.2 ⟨trivial, List.forall_mem_singleton.2 trivial⟩

theorem round_notices (machine : Machine) (elapsed : Nat) (state : State) :
    ∀ notice ∈ (machine.round elapsed state).notices, notice.OfRun := by
  have hcase := round_cases machine elapsed state
  generalize machine.round elapsed state = result at hcase ⊢
  cases hcase with
  | finish => exact List.forall_mem_singleton.2 trivial
  | complete => exact List.forall_mem_singleton.2 trivial
  | limit => exact fun _ h => nomatch h
  | undecodable => exact fun _ h => nomatch h
  | perform instruction => exact perform_notices machine state instruction

theorem Halts.notices {machine : Machine} {clock : Nat → Nat} {count : Nat} {state : State}
    {notices : List Notice} {halt : Halt} (h : Halts machine clock count state notices halt) :
    ∀ notice ∈ notices, notice.OfRun := by
  induction h with
  | @last state notices halt hround =>
    have htold := round_notices machine (clock state.executed) state
    rwa [hround] at htold
  | @cons _ state _ notices _ _ hround _ ih =>
    have htold := round_notices machine (clock state.executed) state
    rw [hround] at htold
    exact List.forall_mem_append.2 ⟨htold, ih⟩

/-- The run of a method tells only what runs tell. -/
theorem MethodHalts.notices {machine : Machine} {clock : Nat → Nat} {classFile : ClassFile} {method : Member}
    {arguments : List Int32} {notices : List Notice} {halt : Halt}
    (h : MethodHalts machine clock classFile method arguments notices halt) :
    ∀ notice ∈ notices, notice.OfRun := by
  cases h with
  | unentered => exact fun _ h => nomatch h
  | entered _ hhalts => exact List.forall_mem_cons.2 ⟨trivial, hhalts.notices⟩

end Machine

/-! ## Engines -/

namespace Engine

/-- What the engine makes of a run is what the machine makes of it, by some clock and in some number of
rounds. -/
def Faithful {σ : Type} (engine : Engine Option σ) : Prop :=
  ∀ machine state seen halt final, engine.finish machine state seen = some (halt, final) →
    ∃ clock fuel, machine.run engine.observer clock fuel state seen = .finished halt final

theorem bounded_faithful {σ : Type} (observer : Observer σ) (clock : Nat → Nat) (fuel : Nat) :
    (bounded observer clock fuel).Faithful := by
  intro machine state seen halt final h
  refine ⟨clock, fuel, ?_⟩
  unfold bounded at h
  dsimp only at h
  split at h
  · rename_i hrun; cases h; exact hrun
  · cases h

theorem Faithful.invoke {σ : Type} {engine : Engine Option σ} (hengine : engine.Faithful) {machine : Machine}
    {classFile : ClassFile} {method : Member} {arguments : List Int32} {seen final : σ} {halt : Machine.Halt}
    (h : engine.invoke machine classFile method arguments seen = some (halt, final)) :
    ∃ clock notices, Machine.MethodHalts machine clock classFile method arguments notices halt ∧
      final = engine.observer.notifyAll notices seen := by
  unfold Engine.invoke at h
  rcases henter : Frame.enter classFile method arguments true with fault | frame
  · rw [henter] at h
    cases h
    exact ⟨fun _ => 0, [], .unentered henter, rfl⟩
  · rw [henter] at h
    obtain ⟨clock, fuel, hrun⟩ := hengine _ _ _ _ _ h
    obtain ⟨count, notices, -, hhalts, rfl⟩ := (Machine.run_eq_finished_iff ..).1 hrun
    exact ⟨clock, _, .entered henter hhalts, rfl⟩

end Engine

/-- A class that is read without error has a name. -/
theorem ClassFile.name_of_parseWithRest {bytes rest : List UInt8} {classFile : ClassFile}
    (h : ClassFile.parseWithRest bytes = .ok (classFile, rest)) : ∃ className, classFile.name = .ok className := by
  obtain ⟨_, -, hlinked, -⟩ := ClassFile.parseWithRest_eq_ok_iff.1 h
  exact hlinked.thisClass

namespace Session

variable {σ α β : Type}

/-! ## Operations in sequence -/

/-- The session with these classes and an observer that was told these notices. -/
def advance (session : Session σ) (observer : Observer σ) (classes : ClassTable) (notices : List Notice) :
    Session σ :=
  { session with classes, seen := observer.notifyAll notices session.seen }

theorem advance_advance (session : Session σ) (observer : Observer σ) (classes others : ClassTable)
    (notices more : List Notice) :
    (session.advance observer classes notices).advance observer others more =
      session.advance observer others (notices ++ more) := by
  unfold advance
  rw [notifyAll_append]

/-- The operation comes to its end, with this result and this session. -/
def Ends (operation : Operation Option σ α) (session : Session σ) (result : Except Error α)
    (after : Session σ) : Prop :=
  operation.run.run session = some (result, after)

theorem ends_bind_iff {operation : Operation Option σ α} {next : α → Operation Option σ β}
    {session after : Session σ} {result : Except Error β} :
    Ends (operation >>= next) session result after ↔
      (∃ error, Ends operation session (.error error) after ∧ result = .error error) ∨
        ∃ a middle, Ends operation session (.ok a) middle ∧ Ends (next a) middle result after := by
  unfold Ends
  show ((operation.run.run session).bind fun found =>
      (ExceptT.bindCont next found.1 : StateT (Session σ) Option _) found.2) = _ ↔ _
  rcases operation.run.run session with _ | ⟨error | a, middle⟩
  · constructor
    · intro h; cases h
    · rintro (⟨_, h, -⟩ | ⟨_, _, h, -⟩) <;> cases h
  · constructor
    · intro h; cases h; exact .inl ⟨error, rfl, rfl⟩
    · rintro (⟨_, h, rfl⟩ | ⟨_, _, h, -⟩) <;> cases h
      rfl
  · constructor
    · intro h; exact .inr ⟨a, middle, rfl, h⟩
    · rintro (⟨_, h, -⟩ | ⟨_, _, h, h'⟩) <;> cases h
      exact h'

theorem ends_pure_iff {a : α} {session after : Session σ} {result : Except Error α} :
    Ends (pure a) session result after ↔ result = .ok a ∧ after = session := by
  constructor
  · intro h; cases h; exact ⟨rfl, rfl⟩
  · rintro ⟨rfl, rfl⟩; rfl

theorem ends_throw_iff {error : Error} {session after : Session σ} {result : Except Error α} :
    Ends (throw error) session result after ↔ result = .error error ∧ after = session := by
  constructor
  · intro h; cases h; exact ⟨rfl, rfl⟩
  · rintro ⟨rfl, rfl⟩; rfl

theorem ends_map_iff {operation : Operation Option σ α} {f : α → β} {session after : Session σ}
    {result : Except Error β} :
    Ends (f <$> operation) session result after ↔ ∃ r, Ends operation session r after ∧ result = r.map f := by
  rw [← bind_pure_comp, ends_bind_iff]
  constructor
  · rintro (⟨error, h, rfl⟩ | ⟨a, middle, h, hpure⟩)
    · exact ⟨.error error, h, rfl⟩
    · obtain ⟨rfl, rfl⟩ := ends_pure_iff.1 hpure
      exact ⟨.ok a, h, rfl⟩
  · rintro ⟨error | a, h, rfl⟩
    · exact .inl ⟨error, h, rfl⟩
    · exact .inr ⟨a, after, h, ends_pure_iff.2 ⟨rfl, rfl⟩⟩

theorem ends_get_bind_iff {next : Session σ → Operation Option σ α} {session after : Session σ}
    {result : Except Error α} : Ends (get >>= next) session result after ↔ Ends (next session) session result after :=
  Iff.rfl

theorem ends_tell_bind_iff {engine : Engine Option σ} {notice : Notice} {next : Unit → Operation Option σ α}
    {session after : Session σ} {result : Except Error α} :
    Ends (tell engine notice >>= next) session result after ↔
      Ends (next ()) (session.advance engine.observer session.classes [notice]) result after :=
  Iff.rfl

/-! ## Loading -/

/-- The notice of bytes that are left over, if any are. -/
def leftOver (rest : List UInt8) : List Notice :=
  if rest = [] then [] else [.trailing rest.length]

theorem parse_ends {engine : Engine Option σ} {bytes : List UInt8} {session after : Session σ}
    {result : Except Error ClassFile} (h : Ends (parse engine bytes) session result after) :
    (∃ error, ClassFile.parseWithRest bytes = .error error ∧ result = .error (.malformed error) ∧ after = session) ∨
      ∃ classFile rest, ClassFile.parseWithRest bytes = .ok (classFile, rest) ∧ result = .ok classFile ∧
        after = session.advance engine.observer session.classes (leftOver rest) := by
  unfold parse at h
  rcases hparse : ClassFile.parseWithRest bytes with error | ⟨classFile, _ | ⟨byte, rest⟩⟩
  all_goals rw [hparse] at h
  · obtain ⟨rfl, rfl⟩ := ends_throw_iff.1 h
    exact .inl ⟨error, rfl, rfl, rfl⟩
  · obtain ⟨rfl, rfl⟩ := ends_pure_iff.1 h
    exact .inr ⟨classFile, [], rfl, rfl, rfl⟩
  · cases h
    exact .inr ⟨classFile, byte :: rest, rfl, rfl, rfl⟩

theorem register_ends {engine : Engine Option σ} {classFile : ClassFile} {className : String}
    {session after : Session σ} {result : Except Error String} (hname : classFile.name = .ok className)
    (h : Ends (register engine classFile) session result after) :
    (session.classes.insertNew? className classFile = none ∧ result = .error (.alreadyLoaded className) ∧
        after = session) ∨
      ∃ classes, session.classes.insertNew? className classFile = some classes ∧ result = .ok className ∧
        after = session.advance engine.observer classes [.registered className] := by
  unfold register at h
  rw [hname] at h
  rw [ends_get_bind_iff] at h
  rcases hinsert : session.classes.insertNew? className classFile with _ | classes
  · rw [hinsert] at h
    obtain ⟨rfl, rfl⟩ := ends_throw_iff.1 h
    exact .inl ⟨rfl, rfl, rfl⟩
  · rw [hinsert] at h
    cases h
    exact .inr ⟨classes, rfl, rfl, rfl⟩

theorem runMethod_ends {engine : Engine Option σ} (hengine : engine.Faithful) {classFile : ClassFile}
    {method : Member} {arguments : List Int32} {session after : Session σ} {result : Except Error Machine.Halt}
    (h : Ends (runMethod engine classFile method arguments) session result after) :
    ∃ clock notices halt, Machine.MethodHalts session.machine clock classFile method arguments notices halt ∧
      result = .ok halt ∧ after = session.advance engine.observer session.classes notices := by
  unfold runMethod at h
  rw [ends_get_bind_iff] at h
  unfold Ends at h
  rcases hinvoke : engine.invoke session.machine classFile method arguments session.seen with _ | ⟨halt, seen⟩
  · rw [hinvoke] at h
    cases h
  · rw [hinvoke] at h
    cases h
    obtain ⟨clock, notices, hhalts, rfl⟩ := hengine.invoke hinvoke
    exact ⟨clock, notices, halt, hhalts, rfl, rfl⟩

/-- A run that ends hands its end on, be it a failure. -/
theorem runMethod_bind_ends {engine : Engine Option σ} (hengine : engine.Faithful) {classFile : ClassFile}
    {method : Member} {arguments : List Int32} {next : Machine.Halt → Operation Option σ α}
    {session after : Session σ} {result : Except Error α}
    (h : Ends (runMethod engine classFile method arguments >>= next) session result after) :
    ∃ clock notices halt, Machine.MethodHalts session.machine clock classFile method arguments notices halt ∧
      Ends (next halt) (session.advance engine.observer session.classes notices) result after := by
  rcases ends_bind_iff.1 h with ⟨_, hrun, -⟩ | ⟨halt, middle, hrun, h⟩
  · obtain ⟨_, _, _, _, heq, -⟩ := runMethod_ends hengine hrun
    cases heq
  · obtain ⟨clock, notices, _, hhalts, heq, rfl⟩ := runMethod_ends hengine hrun
    cases heq
    exact ⟨clock, notices, halt, hhalts, h⟩

theorem outcome_ends {halt : Machine.Halt} {session after : Session σ} {result : Except Error Int32}
    (h : Ends (outcome halt) session result after) :
    result = halt.outcome.mapError .failed ∧ after = session := by
  obtain ⟨failure | value, executed⟩ := halt
  · exact ends_throw_iff.1 h
  · exact ends_pure_iff.1 h

theorem initialise_ends {engine : Engine Option σ} (hengine : engine.Faithful) {className : String}
    {classFile : ClassFile} {session after : Session σ} {result : Except Error Unit}
    (h : Ends (initialise engine className classFile) session result after) :
    (classFile.findMethod? initializer.1 initializer.2 = none ∧ result = .ok () ∧ after = session) ∨
      ∃ method clock notices halt, classFile.findMethod? initializer.1 initializer.2 = some method ∧
        Machine.MethodHalts session.machine clock classFile method [] notices halt ∧
        result = (halt.outcome.mapError .failed).map (fun _ => ()) ∧
        after = session.advance engine.observer session.classes (.initializing className :: notices) := by
  unfold initialise at h
  rcases hmethod : classFile.findMethod? initializer.1 initializer.2 with _ | method
  · rw [hmethod] at h
    obtain ⟨rfl, rfl⟩ := ends_pure_iff.1 h
    exact .inl ⟨rfl, rfl, rfl⟩
  · rw [hmethod] at h
    obtain ⟨clock, notices, halt, hhalts, h⟩ := runMethod_bind_ends hengine (ends_tell_bind_iff.1 h)
    obtain ⟨_, houtcome, rfl⟩ := ends_map_iff.1 h
    obtain ⟨rfl, rfl⟩ := outcome_ends houtcome
    exact .inr ⟨method, clock, notices, halt, rfl, hhalts, rfl, advance_advance ..⟩

/-- What loading can lead to: the notices it tells, its result and the classes afterwards. -/
inductive LoadCase (classes : ClassTable) (limits : Limits) (bytes : List UInt8) :
    List Notice → Except Error ClassFile → ClassTable → Prop
  | malformed {error : ClassFile.FormatError} (hparse : ClassFile.parseWithRest bytes = .error error) :
      LoadCase classes limits bytes [] (.error (.malformed error)) classes
  | taken {classFile : ClassFile} {rest : List UInt8} {className : String}
      (hparse : ClassFile.parseWithRest bytes = .ok (classFile, rest)) (hname : classFile.name = .ok className)
      (htaken : classes.insertNew? className classFile = none) :
      LoadCase classes limits bytes (leftOver rest) (.error (.alreadyLoaded className)) classes
  /-- The class is new and has no initializer. -/
  | plain {classFile : ClassFile} {rest : List UInt8} {className : String} {added : ClassTable}
      (hparse : ClassFile.parseWithRest bytes = .ok (classFile, rest)) (hname : classFile.name = .ok className)
      (hadded : classes.insertNew? className classFile = some added)
      (hnone : classFile.findMethod? initializer.1 initializer.2 = none) :
      LoadCase classes limits bytes (leftOver rest ++ [.registered className]) (.ok classFile) added
  /-- The class is new, and its initializer runs over the classes it is now one of. -/
  | initialised {classFile : ClassFile} {rest : List UInt8} {className : String} {added : ClassTable}
      {method : Member} {clock : Nat → Nat} {notices : List Notice} {halt : Machine.Halt}
      (hparse : ClassFile.parseWithRest bytes = .ok (classFile, rest)) (hname : classFile.name = .ok className)
      (hadded : classes.insertNew? className classFile = some added)
      (hmethod : classFile.findMethod? initializer.1 initializer.2 = some method)
      (hrun : Machine.MethodHalts ⟨added, limits⟩ clock classFile method [] notices halt) :
      LoadCase classes limits bytes (leftOver rest ++ .registered className :: .initializing className :: notices)
        ((halt.outcome.mapError .failed).map fun _ => classFile) added

theorem load_cases {engine : Engine Option σ} (hengine : engine.Faithful) {bytes : List UInt8}
    {session after : Session σ} {result : Except Error ClassFile}
    (h : Ends (load engine bytes) session result after) :
    ∃ notices classes, LoadCase session.classes session.limits bytes notices result classes ∧
      after = session.advance engine.observer classes notices := by
  unfold load at h
  -- The first part that fails ends the load, and what was told by then stays told.
  rcases ends_bind_iff.1 h with ⟨error, hparse, rfl⟩ | ⟨classFile, parsed, hparse, h⟩
  · rcases parse_ends hparse with ⟨cause, hbytes, heq, rfl⟩ | ⟨_, _, _, heq, -⟩
    · cases heq
      exact ⟨[], after.classes, .malformed hbytes, rfl⟩
    · cases heq
  rcases parse_ends hparse with ⟨_, _, heq, -⟩ | ⟨_, rest, hbytes, heq, rfl⟩
  · cases heq
  cases heq
  obtain ⟨className, hname⟩ := ClassFile.name_of_parseWithRest hbytes
  rcases ends_bind_iff.1 h with ⟨error, hregister, rfl⟩ | ⟨_, registered, hregister, h⟩
  · rcases register_ends hname hregister with ⟨htaken, heq, rfl⟩ | ⟨_, _, heq, -⟩
    · cases heq
      exact ⟨_, _, .taken hbytes hname htaken, rfl⟩
    · cases heq
  rcases register_ends hname hregister with ⟨_, heq, -⟩ | ⟨added, hadded, heq, rfl⟩
  · cases heq
  cases heq
  rw [advance_advance, bind_pure_comp, ends_map_iff] at h
  obtain ⟨_, hinit, rfl⟩ := h
  rcases initialise_ends hengine hinit with ⟨hnone, rfl, rfl⟩ | ⟨method, clock, notices, halt, hmethod, hrun, rfl, rfl⟩
  · exact ⟨_, _, .plain hbytes hname hadded hnone, rfl⟩
  · have hresult : ((halt.outcome.mapError Error.failed).map fun _ => ()).map (fun _ => classFile) =
        (halt.outcome.mapError Error.failed).map fun _ => classFile := by
      cases halt.outcome <;> rfl
    rw [hresult, advance_advance, List.append_assoc]
    exact ⟨_, _, .initialised hbytes hname hadded hmethod hrun, rfl⟩

/-- A class that a load yields was read. -/
theorem LoadCase.parse {classes after : ClassTable} {limits : Limits} {bytes : List UInt8} {notices : List Notice}
    {result : Except Error ClassFile} (h : LoadCase classes limits bytes notices result after)
    {classFile : ClassFile} (hresult : result = .ok classFile) : ClassFile.parse bytes = .ok classFile := by
  cases h with
  | malformed => cases hresult
  | taken => cases hresult
  | plain hparse =>
    cases hresult
    exact ClassFile.parse_eq_ok_iff.2 ⟨_, hparse⟩
  | @initialised _ _ _ _ _ _ _ halt hparse =>
    obtain ⟨failure | value, executed⟩ := halt
    · cases hresult
    · cases hresult
      exact ClassFile.parse_eq_ok_iff.2 ⟨_, hparse⟩

/-! ## Calls -/

/-- What a call can lead to: the notices it tells and its result. -/
inductive CallCase (classes : ClassTable) (limits : Limits) (target : MemberRef) (arguments : List Int32) :
    List Notice → Except Error Int32 → Prop
  | noClass (hclass : classes.find? target.className = none) :
      CallCase classes limits target arguments [] (.error (.noClass target.className))
  | noMethod {classFile : ClassFile} (hclass : classes.find? target.className = some classFile)
      (hmethod : classFile.findMethod? target.name target.descriptor = none) :
      CallCase classes limits target arguments [] (.error (.noMethod target))
  | failed {classFile : ClassFile} {method : Member} {clock : Nat → Nat} {notices : List Notice}
      {failure : Failure} {executed : Nat} (hclass : classes.find? target.className = some classFile)
      (hmethod : classFile.findMethod? target.name target.descriptor = some method)
      (hrun : Machine.MethodHalts ⟨classes, limits⟩ clock classFile method arguments notices
        { outcome := .error failure, executed }) :
      CallCase classes limits target arguments notices (.error (.failed failure))
  | completed {classFile : ClassFile} {method : Member} {clock : Nat → Nat} {notices : List Notice}
      {value : Int32} {executed : Nat} (hclass : classes.find? target.className = some classFile)
      (hmethod : classFile.findMethod? target.name target.descriptor = some method)
      (hrun : Machine.MethodHalts ⟨classes, limits⟩ clock classFile method arguments notices
        { outcome := .ok value, executed }) :
      CallCase classes limits target arguments (notices ++ [.completed target value executed]) (.ok value)

theorem call_cases {engine : Engine Option σ} (hengine : engine.Faithful) {target : MemberRef}
    {arguments : List Int32} {session after : Session σ} {result : Except Error Int32}
    (h : Ends (call engine target arguments) session result after) :
    ∃ notices, CallCase session.classes session.limits target arguments notices result ∧
      after = session.advance engine.observer session.classes notices := by
  unfold call at h
  rw [ends_get_bind_iff] at h
  rcases hclass : session.classes.find? target.className with _ | classFile
  · rw [hclass] at h
    obtain ⟨rfl, rfl⟩ := ends_throw_iff.1 h
    exact ⟨[], .noClass hclass, rfl⟩
  rw [hclass] at h
  rcases hmethod : classFile.findMethod? target.name target.descriptor with _ | method
  · simp only [hmethod] at h
    obtain ⟨rfl, rfl⟩ := ends_throw_iff.1 h
    exact ⟨[], .noMethod hclass hmethod, rfl⟩
  simp only [hmethod] at h
  obtain ⟨clock, notices, halt, hhalts, h⟩ := runMethod_bind_ends hengine h
  obtain ⟨failure | value, executed⟩ := halt
  · rcases ends_bind_iff.1 h with ⟨_, houtcome, rfl⟩ | ⟨_, _, houtcome, -⟩
    · obtain ⟨heq, rfl⟩ := outcome_ends houtcome
      cases heq
      exact ⟨notices, .failed hclass hmethod hhalts, rfl⟩
    · cases (outcome_ends houtcome).1
  · rcases ends_bind_iff.1 h with ⟨_, houtcome, -⟩ | ⟨_, _, houtcome, h⟩
    · cases (outcome_ends houtcome).1
    · obtain ⟨heq, rfl⟩ := outcome_ends houtcome
      cases heq
      rw [ends_tell_bind_iff] at h
      obtain ⟨rfl, rfl⟩ := ends_pure_iff.1 h
      exact ⟨_, .completed hclass hmethod hhalts, advance_advance ..⟩

/-! ## Programs -/

/-- A class that comes from a file was read. -/
theorem parse_of_loadFile {engine : Engine Option σ} (hengine : engine.Faithful) {path : String}
    {contents : Except FileError (List UInt8)} {session after : Session σ} {classFile : ClassFile}
    (h : Ends (loadFile engine path contents) session (.ok classFile) after) :
    ∃ bytes, contents = .ok bytes ∧ ClassFile.parse bytes = .ok classFile := by
  rcases contents with error | bytes
  · cases (ends_throw_iff.1 h).1
  · obtain ⟨_, _, hcase, -⟩ := load_cases hengine (ends_tell_bind_iff.1 h)
    exact ⟨bytes, rfl, hcase.parse rfl⟩

/-- A program comes to its end with the load of its class, or with the call behind it, which is always made. -/
theorem execute_ends {engine : Engine Option σ} (hengine : engine.Faithful) {path : String}
    {contents : Except FileError (List UInt8)} {session after : Session σ} {result : Except Error Int32}
    (h : Ends (execute engine path contents) session result after) :
    (∃ error, Ends (loadFile engine path contents) session (.error error) after ∧ result = .error error) ∨
      ∃ bytes classFile className middle more, contents = .ok bytes ∧ ClassFile.parse bytes = .ok classFile ∧
        classFile.name = .ok className ∧ Ends (loadFile engine path contents) session (.ok classFile) middle ∧
        CallCase middle.classes middle.limits ⟨className, entryPoint.1, entryPoint.2⟩ [] more result ∧
        after = middle.advance engine.observer middle.classes more := by
  rcases ends_bind_iff.1 h with hfailed | ⟨classFile, middle, hload, hnext⟩
  · exact .inl hfailed
  · -- the class that was loaded has a name
    obtain ⟨bytes, hcontents, hparse⟩ := parse_of_loadFile hengine hload
    obtain ⟨rest, hrest⟩ := ClassFile.parse_eq_ok_iff.1 hparse
    obtain ⟨className, hname⟩ := ClassFile.name_of_parseWithRest hrest
    rw [hname] at hnext
    obtain ⟨more, hcall, hafter⟩ := call_cases hengine hnext
    exact .inr ⟨bytes, classFile, className, middle, more, hcontents, hparse, hname, hload, hcall, hafter⟩

end Session

end ClassMachine
