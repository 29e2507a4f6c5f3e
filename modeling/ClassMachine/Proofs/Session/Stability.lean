/-
Calls keep their outcome. What a call comes to depends on the classes it reaches, and a session only ever gains
classes, so a call that misses no class comes to the same whenever it is made again: the same result, the same
number of instructions, the same notices. No count or limit lasts from one run to the next.
-/
import ClassMachine.Proofs.Machine.Agreement
import ClassMachine.Proofs.Machine.Recursion
import ClassMachine.Proofs.Session.History

namespace ClassMachine.Session

variable {σ : Type}

/-! ## The run of a call -/

section

variable {m : Type → Type} [Monad m]

/-- The run that a call makes, and its end, be it a failure. -/
def runTarget (engine : Engine m σ) (target : MemberRef) (arguments : List Int32) : Operation m σ Machine.Halt := do
  let session ← get
  match session.classes.find? target.className with
  | none => throw (.noClass target.className)
  | some classFile =>
    match classFile.findMethod? target.name target.descriptor with
    | none => throw (.noMethod target)
    | some method => runMethod engine classFile method arguments

/-- Makes of the end of a run what a call makes of it. -/
def conclude (engine : Engine m σ) (target : MemberRef) (halt : Machine.Halt) : Operation m σ Int32 := do
  let value ← outcome halt
  tell engine (.completed target value halt.executed)
  return value

end

/-- A call is its run and the conclusion from it. -/
theorem call_eq_runTarget (engine : Engine Option σ) (target : MemberRef) (arguments : List Int32) :
    call engine target arguments = runTarget engine target arguments >>= conclude engine target := by
  unfold call runTarget
  rw [bind_assoc]
  congr 1
  funext session
  rcases session.classes.find? target.className with _ | classFile
  · rfl
  dsimp only
  rcases classFile.findMethod? target.name target.descriptor with _ | method
  · rfl
  · rfl

/-- What the run of a call can lead to. -/
inductive TargetCase (classes : ClassTable) (limits : Limits) (target : MemberRef) (arguments : List Int32) :
    List Notice → Except Error Machine.Halt → Prop
  | noClass (hclass : classes.find? target.className = none) :
      TargetCase classes limits target arguments [] (.error (.noClass target.className))
  | noMethod {classFile : ClassFile} (hclass : classes.find? target.className = some classFile)
      (hmethod : classFile.findMethod? target.name target.descriptor = none) :
      TargetCase classes limits target arguments [] (.error (.noMethod target))
  | ran {classFile : ClassFile} {method : Member} {clock : Nat → Nat} {notices : List Notice} {halt : Machine.Halt}
      (hclass : classes.find? target.className = some classFile)
      (hmethod : classFile.findMethod? target.name target.descriptor = some method)
      (hrun : Machine.MethodHalts ⟨classes, limits⟩ clock classFile method arguments notices halt) :
      TargetCase classes limits target arguments notices (.ok halt)

theorem runTarget_ends {engine : Engine Option σ} (hengine : engine.Faithful) {target : MemberRef}
    {arguments : List Int32} {session after : Session σ} {run : Except Error Machine.Halt}
    (h : Ends (runTarget engine target arguments) session run after) :
    ∃ notices, TargetCase session.classes session.limits target arguments notices run ∧
      after = session.advance engine.observer session.classes notices := by
  unfold runTarget at h
  rw [ends_get_bind_iff] at h
  rcases hclass : session.classes.find? target.className with _ | classFile
  · rw [hclass] at h
    obtain ⟨rfl, rfl⟩ := ends_throw_iff.1 h
    exact ⟨[], .noClass hclass, rfl⟩
  rw [hclass] at h
  rcases hmethod : classFile.findMethod? target.name target.descriptor with _ | method
  · simp only [hmethod] at h
    obtain ⟨rfl, rfl⟩ := ends_throw_iff.1 h
    exact ⟨[], .noMethod hclass hmethod, rfl⟩
  · simp only [hmethod] at h
    obtain ⟨clock, notices, halt, hhalts, rfl, rfl⟩ := runMethod_ends hengine h
    exact ⟨notices, .ran hclass hmethod hhalts, rfl⟩

theorem ends_runMethod {session : Session σ} {clock : Nat → Nat} {classFile : ClassFile} {method : Member}
    {arguments : List Int32} {notices : List Notice} {halt : Machine.Halt} (observer : Observer σ)
    (h : Machine.MethodHalts session.machine clock classFile method arguments notices halt) :
    ∃ fuel, Ends (runMethod (.bounded observer clock fuel) classFile method arguments) session (.ok halt)
      (session.advance observer session.classes notices) := by
  obtain ⟨fuel, hinvoke⟩ := (Machine.invoke_bounded_iff observer clock session.machine classFile method arguments
    session.seen _ halt).2 ⟨notices, h, rfl⟩
  refine ⟨fuel, ?_⟩
  unfold runMethod
  rw [ends_get_bind_iff]
  unfold Ends
  rw [hinvoke]
  rfl

/-- Every such run is made by an engine with enough fuel. -/
theorem TargetCase.ends {session : Session σ} {target : MemberRef} {arguments : List Int32} {notices : List Notice}
    {run : Except Error Machine.Halt} (observer : Observer σ)
    (h : TargetCase session.classes session.limits target arguments notices run) :
    ∃ clock fuel, Ends (runTarget (.bounded observer clock fuel) target arguments) session run
      (session.advance observer session.classes notices) := by
  unfold runTarget
  simp only [ends_get_bind_iff]
  cases h with
  | noClass hclass =>
    rw [hclass]
    exact ⟨fun _ => 0, 0, rfl⟩
  | noMethod hclass hmethod =>
    simp only [hclass, hmethod]
    exact ⟨fun _ => 0, 0, rfl⟩
  | @ran classFile method clock _ halt hclass hmethod hrun =>
    simp only [hclass, hmethod]
    obtain ⟨fuel, hends⟩ := ends_runMethod observer hrun
    exact ⟨clock, fuel, hends⟩

/-! ## What a call comes to -/

/-- What a call comes to: its result, the number of instructions that its run executes, none if there is no run,
and the notices it tells. -/
structure Account where
  result : Except Error Int32
  executed : Option Nat
  told : List Notice

/-- The call ends and comes to this, by some engine and under some clock, with a hook and a transcript to watch. -/
def Calls (hook : Hook σ) (session : Session (σ × List Notice)) (target : MemberRef) (arguments : List Int32)
    (account : Account) (after : Session (σ × List Notice)) : Prop :=
  ∃ engine : Engine Option (σ × List Notice), engine.observer = hook.observer.both .transcript ∧ engine.Faithful ∧
    Ends (call engine target arguments) session account.result after ∧
    (∃ run middle, Ends (runTarget engine target arguments) session run middle ∧
      account.executed = run.toOption.map Machine.Halt.executed) ∧
    after.seen.2 = session.seen.2 ++ account.told

/-- The result of a call whose run ends so. -/
def resultOf (run : Except Error Machine.Halt) : Except Error Int32 := do
  let halt ← run
  halt.outcome.mapError .failed

/-- What a call tells after a run that ends so. -/
def closing (target : MemberRef) : Except Error Machine.Halt → List Notice
  | .ok { outcome := .ok value, executed } => [.completed target value executed]
  | _ => []

/-- What a call comes to if its run tells these notices and ends so. -/
def Account.ofRun (target : MemberRef) (notices : List Notice) (run : Except Error Machine.Halt) : Account where
  result := resultOf run
  executed := run.toOption.map Machine.Halt.executed
  told := notices ++ closing target run

theorem call_ends_iff {engine : Engine Option σ} {target : MemberRef} {arguments : List Int32}
    {session after : Session σ} {result : Except Error Int32} :
    Ends (call engine target arguments) session result after ↔
      ∃ run middle, Ends (runTarget engine target arguments) session run middle ∧ result = resultOf run ∧
        after = middle.advance engine.observer middle.classes (closing target run) := by
  rw [call_eq_runTarget, ends_bind_iff]
  constructor
  · rintro (⟨error, hrun, rfl⟩ | ⟨halt, middle, hrun, h⟩)
    · exact ⟨_, after, hrun, rfl, rfl⟩
    · refine ⟨_, middle, hrun, ?_⟩
      obtain ⟨failure | value, executed⟩ := halt
      · cases h; exact ⟨rfl, rfl⟩
      · cases h; exact ⟨rfl, rfl⟩
  · rintro ⟨error | ⟨failure | value, executed⟩, middle, hrun, rfl, rfl⟩
    · exact .inl ⟨error, hrun, rfl⟩
    · exact .inr ⟨_, middle, hrun, rfl⟩
    · exact .inr ⟨_, middle, hrun, rfl⟩

/-- A call comes to what its run comes to over the classes there are. -/
theorem calls_iff {hook : Hook σ} {session after : Session (σ × List Notice)} {target : MemberRef}
    {arguments : List Int32} {account : Account} :
    Calls hook session target arguments account after ↔
      ∃ notices run, TargetCase session.classes session.limits target arguments notices run ∧
        account = .ofRun target notices run ∧
        after = session.advance (hook.observer.both .transcript) session.classes account.told := by
  constructor
  · rintro ⟨engine, hobserver, hengine, hcall, ⟨run, middle, hrun, hexecuted⟩, htold⟩
    obtain ⟨_, _, hrun', hresult, hafter⟩ := call_ends_iff.1 hcall
    cases hrun.symm.trans hrun'
    obtain ⟨notices, hcase, rfl⟩ := runTarget_ends hengine hrun
    have hafter' := hafter.trans (advance_advance ..)
    rw [hobserver] at hafter'
    rw [hafter', transcript_advance] at htold
    obtain ⟨result, executed, told⟩ := account
    cases hresult
    cases hexecuted
    cases List.append_cancel_left htold
    exact ⟨notices, run, hcase, rfl, hafter'⟩
  · rintro ⟨notices, run, hcase, rfl, rfl⟩
    obtain ⟨clock, fuel, hrun⟩ := hcase.ends (hook.observer.both .transcript)
    refine ⟨.bounded _ clock fuel, rfl, Engine.bounded_faithful _ _ _, ?_, ⟨run, _, hrun, rfl⟩,
      transcript_advance hook session session.classes _⟩
    exact call_ends_iff.2 ⟨run, _, hrun, rfl, (advance_advance ..).symm⟩

/-! ## The same call at another time -/

/-- A class is missing, the one that is asked for or one that the run needs. -/
def Error.IsMissingClass : Error → Prop
  | noClass _ => True
  | failed failure => failure.fault.IsNoClass
  | _ => False

theorem TargetCase.unique {classes : ClassTable} {limits : Limits} {target : MemberRef} {arguments : List Int32}
    {notices other : List Notice} {run run' : Except Error Machine.Halt} (hdeadline : limits.deadline = none)
    (h : TargetCase classes limits target arguments notices run)
    (h' : TargetCase classes limits target arguments other run') : notices = other ∧ run = run' := by
  cases h with
  | noClass hfind =>
    cases h' with
    | noClass => exact ⟨rfl, rfl⟩
    | noMethod hfind' | ran hfind' => rw [hfind] at hfind'; cases hfind'
  | noMethod hfind hmethod =>
    cases h' with
    | noClass hfind' => rw [hfind] at hfind'; cases hfind'
    | noMethod => exact ⟨rfl, rfl⟩
    | ran hfind' hmethod' =>
      cases hfind.symm.trans hfind'
      rw [hmethod] at hmethod'
      cases hmethod'
  | ran hfind hmethod hrun =>
    cases h' with
    | noClass hfind' => rw [hfind] at hfind'; cases hfind'
    | noMethod hfind' hmethod' =>
      cases hfind.symm.trans hfind'
      rw [hmethod] at hmethod'
      cases hmethod'
    | ran hfind' hmethod' hrun' =>
      cases hfind.symm.trans hfind'
      cases hmethod.symm.trans hmethod'
      obtain ⟨rfl, rfl⟩ := hrun.unique_of_no_deadline hdeadline hrun'
      exact ⟨rfl, rfl⟩

/-- With more classes the run of a call comes to the same, if it misses none. -/
theorem TargetCase.within {classes others : ClassTable} {limits : Limits} {target : MemberRef}
    {arguments : List Int32} {notices : List Notice} {run : Except Error Machine.Halt}
    (hdeadline : limits.deadline = none) (hwithin : classes.Within others)
    (h : TargetCase classes limits target arguments notices run)
    (hclass : ∀ error, resultOf run = .error error → ¬ error.IsMissingClass) :
    TargetCase others limits target arguments notices run := by
  cases h with
  | noClass => exact absurd trivial (hclass _ rfl)
  | noMethod hfind hmethod => exact .noMethod (hwithin _ _ hfind) hmethod
  | @ran _ _ clock _ halt hfind hmethod hrun =>
    refine .ran (hwithin _ _ hfind) hmethod (hrun.agrees clock (Machine.agrees_of_within hdeadline hwithin) ?_)
    rintro ⟨failure, hfailure, hkind⟩
    refine hclass (.failed failure) ?_ hkind
    show halt.outcome.mapError Error.failed = _
    rw [hfailure]
    rfl

/-- Requests, in order, lead from one session to another. Any of them may fail. -/
inductive Continues (observer : Observer σ) : Session σ → List Request → Session σ → Prop
  | refl (session : Session σ) : Continues observer session [] session
  | request {session after later : Session σ} {request : Request} {requests : List Request}
      {result : Except Error Reply} (hperforms : request.Performs observer session result after)
      (hrest : Continues observer after requests later) : Continues observer session (request :: requests) later

theorem Change.within {α : Type} {classes after : ClassTable} {limits : Limits} {received : Option (List UInt8)}
    {told more : List Notice} {result : Except Error α} (h : Change classes limits received told more result after) :
    classes.Within after := by
  cases h with
  | refused => exact fun _ _ h => h
  | @added _ _ className _ _ _ _ _ _ _ _ hadded =>
    intro name classFile hfind
    rw [ClassTable.find?_of_insertNew? hadded, if_neg, hfind]
    rintro rfl
    rw [(insertNew?_eq_some_iff.1 hadded).1] at hfind
    cases hfind

/-- A request keeps the classes and the limits of its session. -/
theorem Request.Performs.keeps {observer : Observer σ} {request : Request} {session after : Session σ}
    {result : Except Error Reply} (h : request.Performs observer session result after) :
    session.classes.Within after.classes ∧ after.limits = session.limits := by
  obtain ⟨_, classes, rfl, ⟨-, _, _, -, hchange, -⟩ | ⟨-, rfl, -⟩⟩ := h.cases
  · exact ⟨hchange.within, rfl⟩
  · exact ⟨fun _ _ h => h, rfl⟩

theorem Continues.keeps {observer : Observer σ} {session later : Session σ} {requests : List Request}
    (h : Continues observer session requests later) :
    session.classes.Within later.classes ∧ later.limits = session.limits := by
  induction h with
  | refl => exact ⟨fun _ _ h => h, rfl⟩
  | request hperforms _ ih =>
    have hfirst := hperforms.keeps
    exact ⟨hfirst.1.trans ih.1, ih.2.trans hfirst.2⟩

/-- A call that misses no class comes to the same whenever it is made again. Whatever session it is made in, as
long as runs have no deadline, and whatever loads and calls follow, failed ones included: the call ends again,
with the same result, the same number of instructions and the same notices, and it cannot come to anything else. -/
theorem calls_again (hook : Hook σ) {session after later : Session (σ × List Notice)} {target : MemberRef}
    {arguments : List Int32} {account : Account} {requests : List Request}
    (hdeadline : session.limits.deadline = none) (hcalls : Calls hook session target arguments account after)
    (hclass : ∀ error, account.result = .error error → ¬ error.IsMissingClass)
    (hcontinues : Continues (hook.observer.both .transcript) after requests later) :
    (∃ final, Calls hook later target arguments account final) ∧
      ∀ other final, Calls hook later target arguments other final → other = account := by
  obtain ⟨notices, run, hcase, rfl, rfl⟩ := calls_iff.1 hcalls
  -- only the table of classes has changed since, and it has grown
  obtain ⟨hwithin, hlimits⟩ := hcontinues.keeps
  have hlater : TargetCase later.classes later.limits target arguments notices run := by
    rw [hlimits]
    exact hcase.within hdeadline hwithin hclass
  have hdeadline' : later.limits.deadline = none := by
    rw [hlimits]
    exact hdeadline
  refine ⟨⟨_, calls_iff.2 ⟨notices, run, hlater, rfl, rfl⟩⟩, fun other final hother => ?_⟩
  obtain ⟨notices', run', hcase', rfl, -⟩ := calls_iff.1 hother
  obtain ⟨rfl, rfl⟩ := hlater.unique hdeadline' hcase'
  rfl

/-- The call of `g` of class `A` comes to the same after a load that fails in its initializer and a call to a class
that is missing. -/
theorem calls_again_callingMethod :
    let session : Session (Recorder × List Notice) :=
      { classes := Machine.callingMachine.classes, limits := {}, seen := (.empty, []) }
    let target : MemberRef := ⟨"A", "g", "()I"⟩
    session.limits.deadline = none ∧
    ∃ account after later final, Calls Recorder.hook session target [] account after ∧
      account.result = .ok 1 ∧ account.executed = some 4 ∧ (eventsOf account.told).length = 4 ∧
      Continues (Recorder.hook.observer.both .transcript) after
        [.load (brokenClass.encode 6), .call ⟨"C", "f", "()I"⟩ []] later ∧
      later.classes.rows.length = 2 ∧ Calls Recorder.hook later target [] account final := by
  intro session target
  -- Seven rounds do for every run: four instructions, the return of `f` and the end.
  let engine := Engine.bounded (Recorder.hook.observer.both .transcript) (fun _ => 0) 7
  have hengine : engine.Faithful := Engine.bounded_faithful _ _ _
  obtain ⟨account, after, later, hcalls, hvalue, hexecuted, hevents, hcontinues, hrows⟩ :
      ∃ account after later, Calls Recorder.hook session target [] account after ∧
        account.result = .ok 1 ∧ account.executed = some 4 ∧ (eventsOf account.told).length = 4 ∧
        Continues (Recorder.hook.observer.both .transcript) after
          [.load (brokenClass.encode 6), .call ⟨"C", "f", "()I"⟩ []] later ∧
        later.classes.rows.length = 2 :=
    ⟨⟨.ok 1, some 4, _⟩, _, _, ⟨engine, rfl, hengine, rfl, ⟨_, _, rfl, rfl⟩, rfl⟩, rfl, rfl, rfl,
      .request ⟨engine, rfl, hengine, rfl⟩ (.request ⟨engine, rfl, hengine, rfl⟩ (.refl _)), rfl⟩
  have hclass : ∀ error, account.result = .error error → ¬ error.IsMissingClass := by
    intro error herror
    rw [hvalue] at herror
    cases herror
  obtain ⟨⟨final, hagain⟩, -⟩ := calls_again Recorder.hook rfl hcalls hclass hcontinues
  exact ⟨rfl, account, after, later, final, hcalls, hvalue, hexecuted, hevents, hcontinues, hrows, hagain⟩

end ClassMachine.Session
