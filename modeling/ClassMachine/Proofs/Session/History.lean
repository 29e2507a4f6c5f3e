/-
Sessions over any history of requests. The classes of a session are those that its requests brought, the
first of each name: this is the invariant of every history, and what a single request can do to the table
of classes (`Change`) keeps it. So a name leads to the first class that came under it, a load that is
refused and a call change nothing, and all that loading runs is the initializer of a class, with the first load
of its name.
-/
import ClassMachine.Proofs.Session.Effects
import Mathlib.Data.List.Basic

namespace ClassMachine

/-- Keeps all notices in order. -/
def Observer.transcript : Observer (List Notice) where
  notify notice told := told ++ [notice]

/-- The notice is one that loading tells before the initializer. -/
def Notice.OfLoader : Notice → Prop
  | trailing .. | registered .. | fileRead .. => True
  | _ => False

namespace Session

variable {σ α β : Type}

/-! ## Requests -/

/-- What a session can be asked to do. A file is given by what reading it yields. -/
inductive Request where
  | load (bytes : List UInt8)
  | loadFile (path : String) (contents : Except FileError (List UInt8))
  | call (target : MemberRef) (arguments : List Int32)
  | execute (path : String) (contents : Except FileError (List UInt8))

/-- What a session answers. -/
inductive Reply where
  | loaded (classFile : ClassFile)
  | value (value : Int32)

namespace Request

def perform {m : Type → Type} [Monad m] (engine : Engine m σ) : Request → Operation m σ Reply
  | load bytes => .loaded <$> Session.load engine bytes
  | loadFile path contents => .loaded <$> Session.loadFile engine path contents
  | call target arguments => .value <$> Session.call engine target arguments
  | execute path contents => .value <$> Session.execute engine path contents

/-- Whether the request loads a class. -/
def IsLoad : Request → Prop
  | call .. => False
  | _ => True

/-- The bytes that the request loads a class from. -/
def received? : Request → Option (List UInt8)
  | load bytes => some bytes
  | loadFile _ contents | execute _ contents => contents.toOption
  | call .. => none

/-- The request loads from bytes that hold this class, and the class has this name. -/
def Provides (request : Request) (className : String) (classFile : ClassFile) : Prop :=
  ∃ bytes, request.received? = some bytes ∧ ClassFile.parse bytes = .ok classFile ∧
    classFile.name = .ok className

/-- The request comes to its end, by some engine and under some clock, while the observer watches. -/
def Performs (observer : Observer σ) (request : Request) (session : Session σ) (result : Except Error Reply)
    (after : Session σ) : Prop :=
  ∃ engine : Engine Option σ, engine.observer = observer ∧ engine.Faithful ∧
    Ends (request.perform engine) session result after

end Request

/-- Requests, in order, lead from the session without classes to this one. Any of them may have failed. -/
inductive History (observer : Observer σ) (limits : Limits) (seen : σ) : List Request → Session σ → Prop
  | start : History observer limits seen [] (Session.start limits seen)
  | request {requests : List Request} {session after : Session σ} {request : Request}
      {result : Except Error Reply} (hhistory : History observer limits seen requests session)
      (hperforms : request.Performs observer session result after) :
      History observer limits seen (requests ++ [request]) after

/-! ## What one request changes -/

/-- The error of a load that comes to nothing. -/
def Error.IsRefusal : Error → Prop
  | unreadable .. | malformed .. | alreadyLoaded .. => True
  | _ => False

/-- What the loader runs for a class that it has added, by what is told of it: nothing if the class has no
initializer, and otherwise the initializer, behind the notice that it is about to run. -/
inductive Initialises (machine : Machine) (className : String) (classFile : ClassFile) : List Notice → Prop
  | absent (hnone : classFile.findMethod? initializer.1 initializer.2 = none) :
      Initialises machine className classFile []
  | run {method : Member} {clock : Nat → Nat} {notices : List Notice} {halt : Machine.Halt}
      (hmethod : classFile.findMethod? initializer.1 initializer.2 = some method)
      (hrun : Machine.MethodHalts machine clock classFile method [] notices halt) :
      Initialises machine className classFile (.initializing className :: notices)

theorem Initialises.initializing_mem_iff {machine : Machine} {className other : String} {classFile : ClassFile}
    {notices : List Notice} (h : Initialises machine className classFile notices) :
    .initializing other ∈ notices ↔
      other = className ∧ (classFile.findMethod? initializer.1 initializer.2).isSome := by
  cases h with
  | absent hnone =>
    rw [hnone]
    exact ⟨nofun, nofun⟩
  | @run method clock told halt hmethod hrun =>
    have hquiet : .initializing other ∉ told := fun hmem => hrun.notices _ hmem
    rw [hmethod, List.mem_cons, or_iff_left hquiet]
    simp

/-- What a load changes: nothing if it is refused, and otherwise it adds one class and runs the initializer
of that class, if there is one. Behind what the load tells may stand what the call of a program tells. -/
inductive Change (classes : ClassTable) (limits : Limits) (received : Option (List UInt8)) :
    List Notice → List Notice → Except Error α → ClassTable → Prop
  | refused {told : List Notice} {error : Error} (herror : error.IsRefusal)
      (htold : ∀ notice ∈ told, notice.OfLoader)
      (htaken : ∀ bytes classFile className, received = some bytes → ClassFile.parse bytes = .ok classFile →
        classFile.name = .ok className → classes.insertNew? className classFile = none) :
      Change classes limits received told [] (.error error) classes
  | added {bytes : List UInt8} {classFile : ClassFile} {className : String} {added : ClassTable}
      {before initialising more : List Notice} {result : Except Error α} (hreceived : received = some bytes)
      (hparse : ClassFile.parse bytes = .ok classFile) (hname : classFile.name = .ok className)
      (hadded : classes.insertNew? className classFile = some added)
      (hbefore : ∀ notice ∈ before, notice.OfLoader)
      (hinitialises : Initialises ⟨added, limits⟩ className classFile initialising)
      (hmore : more = [] ∨ ∃ value, CallCase added limits ⟨className, entryPoint.1, entryPoint.2⟩ [] more value)
      (hresult : ∀ error, result = .error error → ¬ error.IsRefusal) :
      Change classes limits received (before ++ initialising) more result added

theorem Change.map {classes after : ClassTable} {limits : Limits} {received : Option (List UInt8)}
    {told more : List Notice} {result : Except Error α} (h : Change classes limits received told more result after)
    (f : α → β) : Change classes limits received told more (result.map f) after := by
  cases h with
  | refused herror htold htaken => exact .refused herror htold htaken
  | added hreceived hparse hname hadded hbefore hinitialises hmore hresult =>
    refine .added hreceived hparse hname hadded hbefore hinitialises hmore ?_
    rintro error h
    rcases result with _ | a
    · cases h; exact hresult _ rfl
    · cases h

/-- Loading tells nothing of initializers before it registers the class. -/
theorem Change.cons {classes after : ClassTable} {limits : Limits} {received : Option (List UInt8)}
    {told more : List Notice} {result : Except Error α} (h : Change classes limits received told more result after)
    (notice : Notice) (hnotice : notice.OfLoader) :
    Change classes limits received (notice :: told) more result after := by
  cases h with
  | refused herror htold htaken => exact .refused herror (List.forall_mem_cons.2 ⟨hnotice, htold⟩) htaken
  | added hreceived hparse hname hadded hbefore hinitialises hmore hresult =>
    exact .added hreceived hparse hname hadded (List.forall_mem_cons.2 ⟨hnotice, hbefore⟩) hinitialises hmore hresult

/-- The call of a program changes no more than the load before it. -/
theorem Change.append {classes after : ClassTable} {limits : Limits} {received : Option (List UInt8)}
    {told more : List Notice} {a : α} {result : Except Error β}
    (h : Change classes limits received told [] (.ok a : Except Error α) after)
    (hcall : ∀ bytes classFile className, received = some bytes → ClassFile.parse bytes = .ok classFile →
      classFile.name = .ok className →
      ∃ value, CallCase after limits ⟨className, entryPoint.1, entryPoint.2⟩ [] more value)
    (hresult : ∀ error, result = .error error → ¬ error.IsRefusal) :
    Change classes limits received told more result after := by
  cases h with
  | added hreceived hparse hname hadded hbefore hinitialises _ _ =>
    exact .added hreceived hparse hname hadded hbefore hinitialises
      (.inr (hcall _ _ _ hreceived hparse hname)) hresult

theorem leftOver_ofLoader (rest : List UInt8) : ∀ notice ∈ leftOver rest, notice.OfLoader := by
  unfold leftOver
  split
  · exact fun _ h => nomatch h
  · exact List.forall_mem_singleton.2 trivial

theorem parse_of_parseWithRest {bytes rest : List UInt8} {classFile : ClassFile}
    (h : ClassFile.parseWithRest bytes = .ok (classFile, rest)) : ClassFile.parse bytes = .ok classFile :=
  ClassFile.parse_eq_ok_iff.2 ⟨rest, h⟩

theorem LoadCase.change {classes after : ClassTable} {limits : Limits} {bytes : List UInt8}
    {notices : List Notice} {result : Except Error ClassFile}
    (h : LoadCase classes limits bytes notices result after) :
    Change classes limits (some bytes) notices [] result after := by
  have hbefore (rest : List UInt8) (className : String) :
      ∀ notice ∈ leftOver rest ++ [.registered className], notice.OfLoader :=
    List.forall_mem_append.2 ⟨leftOver_ofLoader rest, List.forall_mem_singleton.2 trivial⟩
  cases h with
  | @malformed error hparse =>
    refine .refused trivial (fun _ h => nomatch h) ?_
    rintro _ classFile className ⟨⟩ hclass -
    obtain ⟨rest, hrest⟩ := ClassFile.parse_eq_ok_iff.1 hclass
    cases hparse.symm.trans hrest
  | @taken classFile rest className hparse hname htaken =>
    refine .refused trivial (leftOver_ofLoader rest) ?_
    rintro _ other otherName ⟨⟩ hclass hother
    cases (parse_of_parseWithRest hparse).symm.trans hclass
    cases hname.symm.trans hother
    exact htaken
  | @plain classFile rest className added hparse hname hadded hnone =>
    rw [← List.append_nil (leftOver rest ++ [Notice.registered className])]
    exact .added rfl (parse_of_parseWithRest hparse) hname hadded (hbefore rest className) (.absent hnone) (.inl rfl)
      fun _ h => nomatch h
  | @initialised classFile rest className added method clock told halt hparse hname hadded hmethod hrun =>
    rw [← List.singleton_append, ← List.append_assoc]
    refine .added rfl (parse_of_parseWithRest hparse) hname hadded (hbefore rest className) (.run hmethod hrun)
      (.inl rfl) ?_
    intro error h
    obtain ⟨failure | value, executed⟩ := halt
    · cases h; exact id
    · cases h

theorem loadFile_change {engine : Engine Option σ} (hengine : engine.Faithful) {path : String}
    {contents : Except FileError (List UInt8)} {session after : Session σ} {result : Except Error ClassFile}
    (h : Ends (loadFile engine path contents) session result after) :
    ∃ told classes, Change session.classes session.limits contents.toOption told [] result classes ∧
      after = session.advance engine.observer classes told := by
  rcases contents with error | bytes
  · obtain ⟨rfl, rfl⟩ := ends_throw_iff.1 h
    exact ⟨[], after.classes, .refused trivial (fun _ h => nomatch h) (fun _ _ _ h => nomatch h), rfl⟩
  · obtain ⟨notices, classes, hcase, rfl⟩ := load_cases hengine (ends_tell_bind_iff.1 h)
    exact ⟨_, classes, hcase.change.cons (.fileRead bytes.length path) trivial, advance_advance ..⟩

theorem CallCase.not_initializing {classes : ClassTable} {limits : Limits} {target : MemberRef}
    {arguments : List Int32} {notices : List Notice} {result : Except Error Int32}
    (h : CallCase classes limits target arguments notices result) (className : String) :
    .initializing className ∉ notices := by
  intro hmem
  cases h with
  | noClass => cases hmem
  | noMethod => cases hmem
  | failed _ _ hrun => exact hrun.notices _ hmem
  | completed _ _ hrun =>
    rcases List.mem_append.1 hmem with hmem | hmem
    · exact hrun.notices _ hmem
    · cases List.mem_singleton.1 hmem

theorem CallCase.not_isRefusal {classes : ClassTable} {limits : Limits} {target : MemberRef}
    {arguments : List Int32} {notices : List Notice} {result : Except Error Int32}
    (h : CallCase classes limits target arguments notices result) (error : Error) (herror : result = .error error) :
    ¬ error.IsRefusal := by
  cases h <;> cases herror <;> exact id

theorem execute_change {engine : Engine Option σ} (hengine : engine.Faithful) {path : String}
    {contents : Except FileError (List UInt8)} {session after : Session σ} {result : Except Error Int32}
    (h : Ends (execute engine path contents) session result after) :
    ∃ told more classes, Change session.classes session.limits contents.toOption told more result classes ∧
      after = session.advance engine.observer classes (told ++ more) := by
  rcases execute_ends hengine h with ⟨error, hload, rfl⟩ |
    ⟨bytes, classFile, className, middle, more, rfl, hparse, hname, hload, hcall, rfl⟩
  · obtain ⟨told, classes, hchange, rfl⟩ := loadFile_change hengine hload
    exact ⟨told, [], classes, hchange.map fun _ => (0 : Int32), by rw [List.append_nil]⟩
  · obtain ⟨told, classes, hchange, rfl⟩ := loadFile_change hengine hload
    refine ⟨told, more, classes, hchange.append ?_ hcall.not_isRefusal, advance_advance ..⟩
    rintro _ other otherName ⟨⟩ hother hotherName
    cases hparse.symm.trans hother
    cases hname.symm.trans hotherName
    exact ⟨result, hcall⟩

/-- A load changes the classes as its bytes say, and a call leaves them alone and runs no initializer for the
loader. -/
theorem Request.Performs.cases {observer : Observer σ} {request : Request} {session after : Session σ}
    {result : Except Error Reply} (h : request.Performs observer session result after) :
    ∃ notices classes, after = session.advance observer classes notices ∧
      ((request.IsLoad ∧ ∃ told more, notices = told ++ more ∧
          Change session.classes session.limits request.received? told more result classes ∧
          (more = [] ∨ ∃ path contents, request = .execute path contents)) ∨
        (¬ request.IsLoad ∧ classes = session.classes ∧ (∀ className, .initializing className ∉ notices) ∧
          ∀ error, result = .error error → ¬ error.IsRefusal)) := by
  obtain ⟨engine, rfl, hengine, hperform⟩ := h
  cases request with
  | load bytes =>
    obtain ⟨_, h, rfl⟩ := ends_map_iff.1 hperform
    obtain ⟨told, classes, hcase, rfl⟩ := load_cases hengine h
    exact ⟨told, classes, rfl,
      .inl ⟨trivial, told, [], (List.append_nil told).symm, hcase.change.map _, .inl rfl⟩⟩
  | loadFile path contents =>
    obtain ⟨_, h, rfl⟩ := ends_map_iff.1 hperform
    obtain ⟨told, classes, hchange, rfl⟩ := loadFile_change hengine h
    exact ⟨told, classes, rfl, .inl ⟨trivial, told, [], (List.append_nil told).symm, hchange.map _, .inl rfl⟩⟩
  | call target arguments =>
    obtain ⟨found, h, rfl⟩ := ends_map_iff.1 hperform
    obtain ⟨notices, hcase, rfl⟩ := call_cases hengine h
    refine ⟨notices, session.classes, rfl, .inr ⟨id, rfl, hcase.not_initializing, fun error h => ?_⟩⟩
    rcases found with _ | value
    · cases h; exact hcase.not_isRefusal _ rfl
    · cases h
  | execute path contents =>
    obtain ⟨_, h, rfl⟩ := ends_map_iff.1 hperform
    obtain ⟨told, more, classes, hchange, rfl⟩ := execute_change hengine h
    exact ⟨told ++ more, classes, rfl, .inl ⟨trivial, told, more, rfl, hchange.map _, .inr ⟨path, contents, rfl⟩⟩⟩

/-! ## What holds after every history -/

/-- The class that the request provides under a name. -/
def Request.provided? (request : Request) (className : String) : Option ClassFile := do
  let bytes ← request.received?
  let classFile ← (ClassFile.parse bytes).toOption
  if classFile.name.toOption = some className then some classFile else none

theorem toOption_eq_some_iff {ε : Type} {x : Except ε α} {a : α} : x.toOption = some a ↔ x = .ok a := by
  cases x <;> simp [Except.toOption]

theorem Request.provided?_eq_some_iff {request : Request} {className : String} {classFile : ClassFile} :
    request.provided? className = some classFile ↔ request.Provides className classFile := by
  simp only [Request.provided?, Request.Provides, Option.bind_eq_bind, Option.bind_eq_some_iff,
    toOption_eq_some_iff, Option.ite_none_right_eq_some, Option.some.injEq]
  constructor
  · rintro ⟨bytes, hreceived, found, hparse, hname, rfl⟩
    exact ⟨bytes, hreceived, hparse, hname⟩
  · rintro ⟨bytes, hreceived, hparse, hname⟩
    exact ⟨bytes, hreceived, classFile, hparse, hname, rfl⟩

theorem Request.Provides.unique {request : Request} {className other : String} {classFile found : ClassFile}
    (h : request.Provides className classFile) (h' : request.Provides other found) :
    className = other ∧ classFile = found := by
  obtain ⟨bytes, hreceived, hparse, hname⟩ := h
  obtain ⟨_, hreceived', hparse', hname'⟩ := h'
  cases hreceived.symm.trans hreceived'
  cases hparse.symm.trans hparse'
  cases hname.symm.trans hname'
  exact ⟨rfl, rfl⟩

theorem insertNew?_eq_some_iff {classes added : ClassTable} {className : String} {classFile : ClassFile} :
    classes.insertNew? className classFile = some added ↔
      classes.find? className = none ∧ added.rows = classes.rows ++ [(className, classFile)] := by
  unfold ClassTable.insertNew? ClassTable.contains
  obtain ⟨rows⟩ := added
  cases classes.find? className <;> simp [eq_comm]

theorem insertNew?_eq_none_iff {classes : ClassTable} {className : String} {classFile : ClassFile} :
    classes.insertNew? className classFile = none ↔ ∃ found, classes.find? className = some found := by
  unfold ClassTable.insertNew? ClassTable.contains
  cases classes.find? className <;> simp

/-- The classes are those that the requests provide, the first of each name, and each is under its name. -/
structure Reflects (requests : List Request) (classes : ClassTable) : Prop where
  first : ∀ className, classes.find? className = requests.findSome? fun request => request.provided? className
  named : ∀ row ∈ classes.rows, row.2.name = .ok row.1

theorem Reflects.change {requests : List Request} {classes after : ClassTable} {request : Request}
    {limits : Limits} {told more : List Notice} {result : Except Error α} (h : Reflects requests classes)
    (hchange : Change classes limits request.received? told more result after) :
    Reflects (requests ++ [request]) after := by
  cases hchange with
  | refused _ _ htaken =>
    refine ⟨fun className => ?_, h.named⟩
    rw [List.findSome?_append, ← h.first, List.findSome?_singleton]
    rcases hprovided : request.provided? className with _ | classFile
    · rw [Option.or_none]
    · -- the class is refused because its name is taken, so it is not the first of that name
      obtain ⟨bytes, hreceived, hparse, hname⟩ := Request.provided?_eq_some_iff.1 hprovided
      obtain ⟨found, hfound⟩ := insertNew?_eq_none_iff.1 (htaken _ _ _ hreceived hparse hname)
      rw [hfound, Option.some_or]
  | @added bytes classFile className _ _ _ _ _ hreceived hparse hname hadded _ _ _ _ =>
    obtain ⟨hnew, hrows⟩ := insertNew?_eq_some_iff.1 hadded
    have hprovides : request.Provides className classFile := ⟨bytes, hreceived, hparse, hname⟩
    constructor
    · intro other
      rw [ClassTable.find?_of_insertNew? hadded, List.findSome?_append, ← h.first, List.findSome?_singleton]
      by_cases heq : other = className
      · subst heq
        rw [if_pos rfl, hnew, Option.none_or, Request.provided?_eq_some_iff.2 hprovides]
      · have hnone : request.provided? other = none := by
          rw [Option.eq_none_iff_forall_ne_some]
          intro found hfound
          exact heq ((Request.provided?_eq_some_iff.1 hfound).unique hprovides).1
        rw [if_neg heq, hnone, Option.or_none]
    · rw [hrows]
      exact List.forall_mem_append.2 ⟨h.named, List.forall_mem_singleton.2 hname⟩

theorem Request.not_provides_of_call {request : Request} (h : ¬ request.IsLoad) {className : String}
    {classFile : ClassFile} : ¬ request.Provides className classFile := by
  rintro ⟨bytes, hreceived, -⟩
  cases request with
  | call => cases hreceived
  | _ => exact h trivial

/-- Every history leaves a session with the classes that its requests provide. -/
theorem History.reflects {observer : Observer σ} {limits : Limits} {seen : σ} {requests : List Request}
    {session : Session σ} (h : History observer limits seen requests session) :
    Reflects requests session.classes := by
  induction h with
  | start => exact ⟨fun _ => rfl, fun _ h => nomatch h⟩
  | @request requests session after request result _ hperforms ih =>
    obtain ⟨_, classes, rfl, ⟨-, _, _, -, hchange, -⟩ | ⟨hcall, rfl, -, -⟩⟩ := hperforms.cases
    · exact ih.change hchange
    · refine ⟨fun className => ?_, ih.named⟩
      have hnone : request.provided? className = none := by
        rw [Option.eq_none_iff_forall_ne_some]
        exact fun _ hfound => Request.not_provides_of_call hcall (Request.provided?_eq_some_iff.1 hfound)
      rw [List.findSome?_append, List.findSome?_singleton, hnone, Option.or_none]
      exact ih.first className

theorem Reflects.find?_eq_some_iff {requests : List Request} {classes : ClassTable} (h : Reflects requests classes)
    {className : String} {classFile : ClassFile} : classes.find? className = some classFile ↔
      ∃ earlier request later, requests = earlier ++ request :: later ∧ request.Provides className classFile ∧
        ∀ other ∈ earlier, ∀ found, ¬ other.Provides className found := by
  rw [h.first, List.findSome?_eq_some_iff]
  simp only [Request.provided?_eq_some_iff, Option.eq_none_iff_forall_ne_some, ne_eq]

theorem Reflects.find?_eq_none_iff {requests : List Request} {classes : ClassTable} (h : Reflects requests classes)
    {className : String} : classes.find? className = none ↔
      ∀ request ∈ requests, ∀ classFile, ¬ request.Provides className classFile := by
  rw [h.first, List.findSome?_eq_none_iff]
  simp only [Option.eq_none_iff_forall_ne_some, ne_eq, Request.provided?_eq_some_iff]

/-! ## What observers make of a request -/

theorem both_notifyAll {τ : Type} (first : Observer σ) (second : Observer τ) (notices : List Notice) :
    ∀ seen : σ × τ, (first.both second).notifyAll notices seen =
      (first.notifyAll notices seen.1, second.notifyAll notices seen.2) := by
  induction notices with
  | nil => intro seen; rfl
  | cons notice notices ih => intro seen; exact ih _

theorem transcript_notifyAll (notices : List Notice) : ∀ told : List Notice,
    Observer.transcript.notifyAll notices told = told ++ notices := by
  induction notices with
  | nil => intro told; exact (List.append_nil told).symm
  | cons notice notices ih => intro told; exact (ih _).trans (List.append_assoc told [notice] notices)

theorem transcript_advance (hook : Hook σ) (session : Session (σ × List Notice)) (classes : ClassTable)
    (notices : List Notice) :
    (session.advance (hook.observer.both .transcript) classes notices).seen.2 = session.seen.2 ++ notices := by
  unfold advance
  rw [both_notifyAll, transcript_notifyAll]

/-- What loading tells before the initializer is nothing to a hook. -/
theorem hook_notifyAll_of_ofLoader (hook : Hook σ) {notices : List Notice}
    (h : ∀ notice ∈ notices, notice.OfLoader) (seen : σ) : hook.observer.notifyAll notices seen = seen := by
  induction notices with
  | nil => rfl
  | cons notice notices ih =>
    obtain ⟨hnotice, hrest⟩ := List.forall_mem_cons.1 h
    cases notice <;> first | exact ih hrest | exact hnotice.elim

theorem eventsOf_of_ofLoader {notices : List Notice} (h : ∀ notice ∈ notices, notice.OfLoader) :
    eventsOf notices = [] := by
  refine List.filterMap_eq_nil_iff.2 fun notice hnotice => ?_
  have hloader := h notice hnotice
  cases notice <;> first | rfl | exact hloader.elim

/-! ## Sessions over time -/

/-- What one more request does after the `earlier` ones, with a hook and a transcript to watch it. -/
structure Request.Regular (earlier : List Request) (session : Session (σ × List Notice)) (request : Request)
    (result : Except Error Reply) (after : Session (σ × List Notice)) (told : List Notice) : Prop where
  transcript : after.seen.2 = session.seen.2 ++ told
  /-- A load that is refused changes no class and sends the hook no event. -/
  refused : ∀ error, result = .error error → error.IsRefusal →
    after.classes = session.classes ∧ eventsOf told = [] ∧ after.seen.1 = session.seen.1
  /-- A load that ends in a failed run leaves one class more, under a name that was free. -/
  failed : ∀ failure, result = .error (.failed failure) → request.IsLoad →
    ∃ className classFile, session.classes.find? className = none ∧ request.Provides className classFile ∧
      after.classes.rows = session.classes.rows ++ [(className, classFile)]
  called : ¬ request.IsLoad → after.classes = session.classes
  /-- The loader runs an initializer if the class has one and is the first of its name. -/
  initialised : ∀ className, .initializing className ∈ told ↔
    ∃ classFile, request.Provides className classFile ∧
      (classFile.findMethod? initializer.1 initializer.2).isSome ∧
      ∀ other ∈ earlier, ∀ found, ¬ other.Provides className found
  /-- All that a load runs is the initializer of the class it adds, of which it tells first. Only `execute` goes on
  behind that, with a call of the method that a program starts with. -/
  ran : request.IsLoad → ∃ before initialising more, told = before ++ initialising ++ more ∧
    (∀ notice ∈ before, notice.OfLoader) ∧
    (initialising ++ more = [] ∨ ∃ className classFile, request.Provides className classFile ∧
      Initialises ⟨after.classes, session.limits⟩ className classFile initialising ∧
      (more = [] ∨ ∃ path contents value, request = .execute path contents ∧
        CallCase after.classes session.limits ⟨className, entryPoint.1, entryPoint.2⟩ [] more value))

theorem Change.initialised {requests : List Request} {request : Request} {classes after : ClassTable} {limits : Limits}
    {told more : List Notice} {result : Except Error α} (h : Reflects requests classes)
    (hchange : Change classes limits request.received? told more result after) (className : String) :
    .initializing className ∈ told ++ more ↔ ∃ classFile, request.Provides className classFile ∧
      (classFile.findMethod? initializer.1 initializer.2).isSome ∧
      ∀ other ∈ requests, ∀ found, ¬ other.Provides className found := by
  cases hchange with
  | refused _ htold htaken =>
    rw [List.append_nil]
    constructor
    · intro hmem
      exact (htold _ hmem).elim
    · rintro ⟨classFile, ⟨bytes, hreceived, hparse, hname⟩, -, hearlier⟩
      obtain ⟨found, hfound⟩ := insertNew?_eq_none_iff.1 (htaken _ _ _ hreceived hparse hname)
      rw [h.find?_eq_none_iff.2 hearlier] at hfound
      cases hfound
  | @added bytes classFile name _ before initialising _ _ hreceived hparse hname hadded hbefore hinitialises hmore _ =>
    have hprovides : request.Provides name classFile := ⟨bytes, hreceived, hparse, hname⟩
    have hquiet : .initializing className ∉ before := fun hmem => hbefore _ hmem
    have hcall : .initializing className ∉ more := by
      rcases hmore with rfl | ⟨_, hcase⟩
      · exact List.not_mem_nil
      · exact hcase.not_initializing className
    rw [List.mem_append, or_iff_left hcall, List.mem_append, or_iff_right hquiet, hinitialises.initializing_mem_iff]
    constructor
    · rintro ⟨rfl, hmethod⟩
      exact ⟨classFile, hprovides, hmethod, h.find?_eq_none_iff.1 (insertNew?_eq_some_iff.1 hadded).1⟩
    · rintro ⟨found, hfound, hmethod, -⟩
      obtain ⟨rfl, rfl⟩ := hfound.unique hprovides
      exact ⟨rfl, hmethod⟩

theorem Change.ran {request : Request} {classes after : ClassTable} {limits : Limits} {told more : List Notice}
    {result : Except Error α} (hchange : Change classes limits request.received? told more result after) :
    ∃ before initialising, told = before ++ initialising ∧ (∀ notice ∈ before, notice.OfLoader) ∧
      (initialising ++ more = [] ∨ ∃ className classFile, request.Provides className classFile ∧
        Initialises ⟨after, limits⟩ className classFile initialising ∧
        (more = [] ∨ ∃ value, CallCase after limits ⟨className, entryPoint.1, entryPoint.2⟩ [] more value)) := by
  cases hchange with
  | refused _ htold _ => exact ⟨told, [], (List.append_nil told).symm, htold, .inl rfl⟩
  | @added bytes classFile className _ before initialising _ _ hreceived hparse hname _ hbefore hinitialises hmore _ =>
    exact ⟨before, initialising, rfl, hbefore,
      .inr ⟨className, classFile, ⟨bytes, hreceived, hparse, hname⟩, hinitialises, hmore⟩⟩

theorem Request.Performs.regular {hook : Hook σ} {requests : List Request} {request : Request}
    {session after : Session (σ × List Notice)} {result : Except Error Reply}
    (hreflects : Reflects requests session.classes)
    (h : request.Performs (hook.observer.both .transcript) session result after) :
    ∃ told, request.Regular requests session result after told := by
  obtain ⟨told, classes, rfl, hcases⟩ := h.cases
  have hseen : (session.advance (hook.observer.both .transcript) classes told).seen =
      (hook.observer.notifyAll told session.seen.1, session.seen.2 ++ told) := by
    unfold advance
    rw [both_notifyAll, transcript_notifyAll]
  refine ⟨told, ?_⟩
  rcases hcases with ⟨hload, told, more, rfl, hchange, hexecute⟩ | ⟨hcall, hclasses, hquiet, hresult⟩
  · refine ⟨congrArg Prod.snd hseen, ?_, ?_, absurd hload, hchange.initialised hreflects, fun _ => ?_⟩
    · rintro error rfl hrefusal
      cases hchange with
      | refused _ htold _ =>
        rw [List.append_nil] at hseen ⊢
        exact ⟨rfl, eventsOf_of_ofLoader htold,
          (congrArg Prod.fst hseen).trans (hook_notifyAll_of_ofLoader hook htold _)⟩
      | added _ _ _ _ _ _ _ hresult => exact absurd hrefusal (hresult error rfl)
    · rintro failure rfl -
      cases hchange with
      | refused herror => exact herror.elim
      | @added bytes classFile className _ _ _ _ _ hreceived hparse hname hadded =>
        obtain ⟨hnew, hrows⟩ := insertNew?_eq_some_iff.1 hadded
        exact ⟨className, classFile, hnew, ⟨bytes, hreceived, hparse, hname⟩, hrows⟩
    · obtain ⟨before, initialising, rfl, hbefore, hran⟩ := hchange.ran
      refine ⟨before, initialising, more, rfl, hbefore, hran.imp_right ?_⟩
      rintro ⟨className, classFile, hprovides, hinitialises, hmore⟩
      refine ⟨className, classFile, hprovides, hinitialises, ?_⟩
      rcases hexecute with hnone | ⟨path, contents, hrequest⟩
      · exact .inl hnone
      · exact hmore.imp_right fun ⟨value, hcase⟩ => ⟨path, contents, value, hrequest, hcase⟩
  · refine ⟨congrArg Prod.snd hseen, ?_, fun _ _ hload => absurd hload hcall, fun _ => hclasses, fun className => ?_,
      fun hload => absurd hload hcall⟩
    · intro error herror hrefusal
      exact absurd hrefusal (hresult error herror)
    · constructor
      · intro hmem
        exact absurd hmem (hquiet className)
      · rintro ⟨_, hprovides, -⟩
        exact absurd hprovides (Request.not_provides_of_call hcall)

/-- What a load tells behind the notice of an initializer is what the run of this initializer tells. -/
theorem Request.Regular.run_of_initializing {earlier : List Request} {session after : Session (σ × List Notice)}
    {request : Request} {result : Except Error Reply} {told before run : List Notice} {className : String}
    (h : request.Regular earlier session result after told) (hload : request.IsLoad)
    (hexecute : ∀ path contents, request ≠ .execute path contents)
    (htold : told = before ++ .initializing className :: run) :
    ∃ classFile method clock halt, request.Provides className classFile ∧
      classFile.findMethod? initializer.1 initializer.2 = some method ∧
      Machine.MethodHalts ⟨after.classes, session.limits⟩ clock classFile method [] run halt := by
  obtain ⟨front, initialising, more, hparts, hfront, hran⟩ := h.ran hload
  have hmem : .initializing className ∈ told := by
    rw [htold]
    exact List.mem_append_right before List.mem_cons_self
  have hquiet : .initializing className ∉ front := fun hmem => hfront _ hmem
  rcases hran with hnone | ⟨name, classFile, hprovides, hinitialises, hmore⟩
  · rw [hparts, List.append_assoc, hnone, List.append_nil] at hmem
    exact absurd hmem hquiet
  obtain rfl : more = [] := hmore.resolve_right fun ⟨path, contents, _, hrequest, _⟩ => hexecute path contents hrequest
  rw [List.append_nil] at hparts
  cases hinitialises with
  | absent =>
    rw [hparts, List.append_nil] at hmem
    exact absurd hmem hquiet
  | @run method clock notices halt hmethod hrun =>
    have hsilent : .initializing className ∉ notices := fun hmem => hrun.notices _ hmem
    obtain ⟨-, heq, rfl⟩ := (List.append_cons_inj_of_notMem hquiet hsilent).1 (hparts.symm.trans htold)
    cases heq
    exact ⟨classFile, method, clock, halt, hprovides, hmethod, hrun⟩

/-- After any history of requests, failed ones included, a name leads to the class of the first bytes that
hold a class of this name, and to none if no request brought one; every class is under its own name; and
whatever request comes next is regular: in particular, all that loading runs is the initializer of a class, with the
first load of its name. -/
theorem find_of_history (hook : Hook σ) (limits : Limits) (seen : σ) (requests : List Request)
    (session : Session (σ × List Notice))
    (h : History (hook.observer.both .transcript) limits (seen, []) requests session) :
    (∀ className classFile, session.find className = .ok classFile ↔
      ∃ earlier request later, requests = earlier ++ request :: later ∧ request.Provides className classFile ∧
        ∀ other ∈ earlier, ∀ found, ¬ other.Provides className found) ∧
    (∀ className, session.find className = .error (.noClass className) ↔
      ∀ request ∈ requests, ∀ classFile, ¬ request.Provides className classFile) ∧
    (∀ row ∈ session.classes.rows, row.2.name = .ok row.1) ∧
    ∀ (request : Request) result after, request.Performs (hook.observer.both .transcript) session result after →
      ∃ told, request.Regular requests session result after told := by
  have hreflects := h.reflects
  refine ⟨fun className classFile => ?_, fun className => ?_, hreflects.named, fun request result after hperforms =>
    hperforms.regular hreflects⟩
  · rw [← hreflects.find?_eq_some_iff]
    unfold Session.find
    cases session.classes.find? className <;> simp
  · rw [← hreflects.find?_eq_none_iff]
    unfold Session.find
    cases session.classes.find? className <;> simp

/-- Class `B`, the initializer of which comes to an instruction that the machine does not have. -/
def brokenClass : ClassFile where
  minorVersion := 0
  majorVersion := 52
  pool := .ofList [
    ⟨.utf8, [0x42]⟩, ⟨.classRef, [0, 1]⟩, ⟨.utf8, [0x3c, 0x63, 0x6c, 0x69, 0x6e, 0x69, 0x74, 0x3e]⟩,
    ⟨.utf8, [0x28, 0x29, 0x56]⟩, ⟨.utf8, [0x43, 0x6f, 0x64, 0x65]⟩]
  accessFlags := 1
  thisClass := 2
  superClass := 0
  interfaces := []
  fields := []
  methods := [⟨8, 3, 4, [⟨5, [0, 2, 0, 0, 0, 0, 0, 2, 0x04, 0x60, 0, 0, 0, 0]⟩]⟩]
  attributes := []

/-- The initializer of class `B` executes one instruction and fails at the next, and the class stays; loading it again
is refused. -/
theorem find_of_broken_history :
    let failure : Failure :=
      ⟨.noInstruction (.unsupported 0x60), some ⟨⟨"B", "<clinit>", "()V"⟩, 1, some 0x60⟩⟩
    let run : List Notice := [.started ⟨"B", "<clinit>", "()V"⟩ [],
      .executed ⟨"B", "<clinit>", 1, 0, ⟨.iconst1, .absent⟩, .ofValues [1]⟩]
    ∃ first session after,
      Request.Performs (Recorder.hook.observer.both .transcript) (.load (brokenClass.encode 6))
        (.start {} (.empty, [])) (.error (.failed failure)) first ∧
      first.classes.rows = [("B", brokenClass)] ∧ first.seen.2 = [.registered "B"] ++ .initializing "B" :: run ∧
      (∃ method clock halt, brokenClass.findMethod? initializer.1 initializer.2 = some method ∧
        Machine.MethodHalts ⟨first.classes, {}⟩ clock brokenClass method [] run halt) ∧
      History (Recorder.hook.observer.both .transcript) {} (.empty, [])
        [.load (brokenClass.encode 6), .loadFile "C" (.error .notFound)] session ∧
      Request.Performs (Recorder.hook.observer.both .transcript) (.load (brokenClass.encode 6)) session
        (.error (.alreadyLoaded "B")) after ∧
      session.find "B" = .ok brokenClass ∧ session.find "C" = .error (.noClass "C") ∧
      after.classes = session.classes ∧ after.seen.1 = session.seen.1 := by
  intro failure run
  -- Two rounds do for the initializer: the first instruction, and the one that the machine does not have.
  let engine := Engine.bounded (Recorder.hook.observer.both .transcript) (fun _ => 0) 2
  have hengine : engine.Faithful := Engine.bounded_faithful _ _ _
  obtain ⟨first, second, third, hfirst, htold, hsecond, hthird⟩ : ∃ first second third,
      Request.Performs (Recorder.hook.observer.both .transcript) (.load (brokenClass.encode 6))
        (.start {} (.empty, [])) (.error (.failed failure)) first ∧
      first.seen.2 = [.registered "B"] ++ .initializing "B" :: run ∧
      Request.Performs (Recorder.hook.observer.both .transcript) (.loadFile "C" (.error .notFound)) first
        (.error (.unreadable "C" .notFound)) second ∧
      Request.Performs (Recorder.hook.observer.both .transcript) (.load (brokenClass.encode 6)) second
        (.error (.alreadyLoaded "B")) third :=
    ⟨_, _, _, ⟨engine, rfl, hengine, rfl⟩, rfl, ⟨engine, rfl, hengine, rfl⟩, ⟨engine, rfl, hengine, rfl⟩⟩
  have hprovides : (Request.load (brokenClass.encode 6)).Provides "B" brokenClass := ⟨_, rfl, rfl, rfl⟩
  obtain ⟨-, -, -, hfresh⟩ := find_of_history Recorder.hook {} .empty [] _ .start
  obtain ⟨told, hregular⟩ := hfresh _ _ _ hfirst
  have hrows : first.classes.rows = [("B", brokenClass)] := by
    obtain ⟨className, classFile, -, hother, hrows⟩ := hregular.failed _ rfl trivial
    obtain ⟨rfl, rfl⟩ := hprovides.unique hother
    exact hrows
  have hran : ∃ method clock halt, brokenClass.findMethod? initializer.1 initializer.2 = some method ∧
      Machine.MethodHalts ⟨first.classes, {}⟩ clock brokenClass method [] run halt := by
    obtain ⟨classFile, method, clock, halt, hother, hmethod, hrun⟩ := hregular.run_of_initializing trivial nofun
      (hregular.transcript.symm.trans htold)
    obtain ⟨-, rfl⟩ := hprovides.unique hother
    exact ⟨method, clock, halt, hmethod, hrun⟩
  have hhistory : History (Recorder.hook.observer.both .transcript) {} (.empty, [])
      [.load (brokenClass.encode 6), .loadFile "C" (.error .notFound)] second :=
    .request (.request .start hfirst) hsecond
  obtain ⟨hfind, hmissing, -, hrequest⟩ := find_of_history Recorder.hook {} .empty _ second hhistory
  obtain ⟨_, hagain⟩ := hrequest _ _ _ hthird
  obtain ⟨hclasses, -, hseen⟩ := hagain.refused _ rfl trivial
  refine ⟨first, second, third, hfirst, hrows, htold, hran, hhistory, hthird,
    (hfind "B" brokenClass).2 ⟨[], _, _, rfl, hprovides, nofun⟩, (hmissing "C").2 ?_, hclasses, hseen⟩
  refine List.forall_mem_cons.2 ⟨fun _ h => ?_, List.forall_mem_singleton.2 fun _ h => ?_⟩
  · exact absurd (hprovides.unique h).1 (by decide)
  · obtain ⟨_, hreceived, -⟩ := h
    cases hreceived

end Session

end ClassMachine
