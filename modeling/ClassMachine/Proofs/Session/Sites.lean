/-
Sessions over classes that were read. Loading looks up the name of the class it registers, and executing that of the
class it loaded; both are there. So no request fails because a name cannot be looked up, and all that a session tells
of methods, and the places of failures, are names of methods of its classes (`Request.Performs.wellNamed`).
-/
import ClassMachine.Proofs.Machine.Recursion
import ClassMachine.Proofs.Machine.Sites
import ClassMachine.Proofs.Session.History

namespace ClassMachine

/-- All classes were read from bytes. -/
def ClassTable.Parsed (classes : ClassTable) : Prop :=
  ∀ row ∈ classes.rows, ∃ bytes, ClassFile.parse bytes = .ok row.2

/-- The class is one of the table. -/
def ClassTable.Holds (classes : ClassTable) (classFile : ClassFile) : Prop :=
  ∃ row ∈ classes.rows, row.2 = classFile

theorem ClassTable.Parsed.find? {classes : ClassTable} (h : classes.Parsed) {name : String} {classFile : ClassFile}
    (hfind : classes.find? name = some classFile) : classes.Holds classFile ∧ classFile.Linked := by
  have hmem := ClassTable.mem_rows_of_find? hfind
  obtain ⟨bytes, hparse⟩ := h _ hmem
  exact ⟨⟨_, hmem, rfl⟩, ClassFile.linked_of_parse hparse⟩

namespace Session

variable {σ α β : Type}

/-- After a request that told these notices and came to this result, over these classes: names can be looked up, and
what names a method does so by its own names. -/
structure WellNamed (notices : List Notice) (result : Except Error α) (classes : ClassTable) : Prop where
  parsed : classes.Parsed
  resolved : ∀ error, result ≠ .error (.unresolved error)
  placed : ∀ failure, result = .error (.failed failure) → failure.Placed classes.Holds
  told : ∀ notice ∈ notices, notice.Resolved classes.Holds

theorem WellNamed.map {notices : List Notice} {result : Except Error α} {classes : ClassTable}
    (h : WellNamed notices result classes) (f : α → β) : WellNamed notices (result.map f) classes := by
  refine ⟨h.parsed, fun error heq => ?_, fun failure heq => ?_, h.told⟩
  · rcases result with cause | a
    · cases heq; exact h.resolved error rfl
    · cases heq
  · rcases result with cause | a
    · cases heq; exact h.placed failure rfl
    · cases heq

/-- What was told before over the same classes counts too. -/
theorem WellNamed.append {notices more : List Notice} {result : Except Error α} {classes : ClassTable}
    (h : WellNamed more result classes) (hnotices : ∀ notice ∈ notices, notice.Resolved classes.Holds) :
    WellNamed (notices ++ more) result classes :=
  ⟨h.parsed, h.resolved, h.placed, List.forall_mem_append.2 ⟨hnotices, h.told⟩⟩

theorem parsed_insertNew? {classes added : ClassTable} {className : String} {classFile : ClassFile}
    {bytes rest : List UInt8} (h : classes.Parsed) (hparse : ClassFile.parseWithRest bytes = .ok (classFile, rest))
    (hadded : classes.insertNew? className classFile = some added) : added.Parsed ∧ added.Holds classFile := by
  obtain ⟨-, hrows⟩ := insertNew?_eq_some_iff.1 hadded
  unfold ClassTable.Parsed ClassTable.Holds
  rw [hrows]
  exact ⟨List.forall_mem_append.2 ⟨h, List.forall_mem_singleton.2 ⟨bytes, parse_of_parseWithRest hparse⟩⟩,
    _, List.mem_append_right _ List.mem_cons_self, rfl⟩

theorem leftOver_resolved (known : ClassFile → Prop) (rest : List UInt8) :
    ∀ notice ∈ leftOver rest, notice.Resolved known := by
  unfold leftOver
  split
  · exact fun _ h => nomatch h
  · exact List.forall_mem_singleton.2 trivial

/-- A result that is a value, or an error of the session itself, names no method. -/
theorem WellNamed.of_no_run {notices : List Notice} {result : Except Error α} {classes : ClassTable}
    (hparsed : classes.Parsed) (hresolved : ∀ error, result ≠ .error (.unresolved error))
    (hfailed : ∀ failure, result ≠ .error (.failed failure))
    (htold : ∀ notice ∈ notices, notice.Resolved classes.Holds) : WellNamed notices result classes :=
  ⟨hparsed, hresolved, fun failure heq => absurd heq (hfailed failure), htold⟩

/-- The end of a run as a result. -/
theorem WellNamed.of_run {notices : List Notice} {halt : Machine.Halt} {classes : ClassTable}
    (hparsed : classes.Parsed) (hhalt : halt.Resolved classes.Holds)
    (htold : ∀ notice ∈ notices, notice.Resolved classes.Holds) :
    WellNamed notices (halt.outcome.mapError .failed) classes := by
  obtain ⟨failure | value, executed⟩ := halt
  · refine ⟨hparsed, fun _ heq => ?_, fun _ heq => ?_, htold⟩
    · cases heq
    · cases heq; exact hhalt failure rfl
  · exact .of_no_run hparsed (fun _ heq => nomatch heq) (fun _ heq => nomatch heq) htold

theorem LoadCase.wellNamed {classes after : ClassTable} {limits : Limits} {bytes : List UInt8}
    {notices : List Notice} {result : Except Error ClassFile} (hparsed : classes.Parsed)
    (h : LoadCase classes limits bytes notices result after) : WellNamed notices result after := by
  cases h with
  | malformed => exact .of_no_run hparsed (fun _ heq => nomatch heq) (fun _ heq => nomatch heq) fun _ h => nomatch h
  | taken => exact .of_no_run hparsed (fun _ heq => nomatch heq) (fun _ heq => nomatch heq) (leftOver_resolved _ _)
  | plain hparse _ hinsert =>
    obtain ⟨hadded, -⟩ := parsed_insertNew? hparsed hparse hinsert
    exact .of_no_run hadded (fun _ heq => nomatch heq) (fun _ heq => nomatch heq)
      (List.forall_mem_append.2 ⟨leftOver_resolved _ _, List.forall_mem_singleton.2 trivial⟩)
  | initialised hparse _ hinsert hmethod hrun =>
    obtain ⟨hadded, hholds⟩ := parsed_insertNew? hparsed hparse hinsert
    obtain ⟨hhalt, htold⟩ := hrun.resolved (fun _ _ => hadded.find?)
      (ClassFile.linked_of_parse (parse_of_parseWithRest hparse)) hholds (List.mem_of_find?_eq_some hmethod)
    refine ((WellNamed.of_run hadded hhalt ?_).map _)
    exact List.forall_mem_append.2 ⟨leftOver_resolved _ _,
      List.forall_mem_cons.2 ⟨trivial, List.forall_mem_cons.2 ⟨trivial, htold⟩⟩⟩

theorem CallCase.wellNamed {classes : ClassTable} {limits : Limits} {target : MemberRef} {arguments : List Int32}
    {notices : List Notice} {result : Except Error Int32} (hparsed : classes.Parsed)
    (h : CallCase classes limits target arguments notices result) : WellNamed notices result classes := by
  have hrun {classFile : ClassFile} {method : Member} {clock : Nat → Nat} {told : List Notice} {halt : Machine.Halt}
      (hclass : classes.find? target.className = some classFile)
      (hmethod : classFile.findMethod? target.name target.descriptor = some method)
      (hrun : Machine.MethodHalts ⟨classes, limits⟩ clock classFile method arguments told halt) :
      halt.Resolved classes.Holds ∧ ∀ notice ∈ told, notice.Resolved classes.Holds :=
    hrun.resolved (fun _ _ => hparsed.find?) (hparsed.find? hclass).2 (hparsed.find? hclass).1
      (List.mem_of_find?_eq_some hmethod)
  cases h with
  | noClass => exact .of_no_run hparsed (fun _ heq => nomatch heq) (fun _ heq => nomatch heq) fun _ h => nomatch h
  | noMethod => exact .of_no_run hparsed (fun _ heq => nomatch heq) (fun _ heq => nomatch heq) fun _ h => nomatch h
  | failed hclass hmethod hhalts =>
    obtain ⟨hhalt, htold⟩ := hrun hclass hmethod hhalts
    exact .of_run hparsed hhalt htold
  | completed hclass hmethod hhalts =>
    obtain ⟨hhalt, htold⟩ := hrun hclass hmethod hhalts
    exact .of_run hparsed hhalt (List.forall_mem_append.2 ⟨htold, List.forall_mem_singleton.2 trivial⟩)

theorem loadFile_wellNamed {engine : Engine Option σ} (hengine : engine.Faithful) {path : String}
    {contents : Except FileError (List UInt8)} {session after : Session σ} {result : Except Error ClassFile}
    (hparsed : session.classes.Parsed) (h : Ends (loadFile engine path contents) session result after) :
    ∃ notices classes, WellNamed notices result classes ∧
      after = session.advance engine.observer classes notices := by
  rcases contents with error | bytes
  · obtain ⟨rfl, rfl⟩ := ends_throw_iff.1 h
    exact ⟨[], after.classes, .of_no_run hparsed (fun _ heq => nomatch heq) (fun _ heq => nomatch heq)
      (fun _ h => nomatch h), rfl⟩
  · obtain ⟨notices, classes, hcase, rfl⟩ := load_cases hengine (ends_tell_bind_iff.1 h)
    have hread : ∀ notice ∈ [Notice.fileRead bytes.length path], notice.Resolved classes.Holds :=
      List.forall_mem_singleton.2 trivial
    exact ⟨_, classes, (hcase.wellNamed hparsed).append hread, advance_advance ..⟩

theorem execute_wellNamed {engine : Engine Option σ} (hengine : engine.Faithful) {path : String}
    {contents : Except FileError (List UInt8)} {session after : Session σ} {result : Except Error Int32}
    (hparsed : session.classes.Parsed) (h : Ends (execute engine path contents) session result after) :
    ∃ notices classes, WellNamed notices result classes ∧ after = session.advance engine.observer classes notices := by
  rcases execute_ends hengine h with ⟨error, hload, rfl⟩ | ⟨_, _, _, middle, more, -, -, -, hload, hcall, rfl⟩
  · obtain ⟨notices, classes, hnamed, rfl⟩ := loadFile_wellNamed hengine hparsed hload
    exact ⟨notices, classes, hnamed.map fun _ => (0 : Int32), rfl⟩
  · obtain ⟨notices, classes, hnamed, rfl⟩ := loadFile_wellNamed hengine hparsed hload
    exact ⟨_, classes, (hcall.wellNamed hnamed.parsed).append hnamed.told, advance_advance ..⟩

/-- A request over classes that were read leaves such classes behind and names methods by their own names only. -/
theorem Request.Performs.wellNamed {observer : Observer σ} {request : Request} {session after : Session σ}
    {result : Except Error Reply} (hparsed : session.classes.Parsed)
    (h : request.Performs observer session result after) :
    ∃ notices classes, WellNamed notices result classes ∧ after = session.advance observer classes notices := by
  obtain ⟨engine, rfl, hengine, hperform⟩ := h
  cases request with
  | load bytes =>
    obtain ⟨_, h, rfl⟩ := ends_map_iff.1 hperform
    obtain ⟨notices, classes, hcase, rfl⟩ := load_cases hengine h
    exact ⟨notices, classes, (hcase.wellNamed hparsed).map _, rfl⟩
  | loadFile path contents =>
    obtain ⟨_, h, rfl⟩ := ends_map_iff.1 hperform
    obtain ⟨notices, classes, hnamed, rfl⟩ := loadFile_wellNamed hengine hparsed h
    exact ⟨notices, classes, hnamed.map _, rfl⟩
  | call target arguments =>
    obtain ⟨_, h, rfl⟩ := ends_map_iff.1 hperform
    obtain ⟨notices, hcase, rfl⟩ := call_cases hengine h
    exact ⟨notices, session.classes, (hcase.wellNamed hparsed).map _, rfl⟩
  | execute path contents =>
    obtain ⟨_, h, rfl⟩ := ends_map_iff.1 hperform
    obtain ⟨notices, classes, hnamed, rfl⟩ := execute_wellNamed hengine hparsed h
    exact ⟨notices, classes, hnamed.map _, rfl⟩

end Session

end ClassMachine
