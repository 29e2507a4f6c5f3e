/-
The operations of a session: registering and loading classes, and running their methods. Loading
registers a class and then runs its initializer; a class whose initializer fails stays registered.
An operation that fails keeps what it did before the failure.
-/
import ClassMachine.Session.Basic

namespace ClassMachine.Session

/-- An operation on a session inside `m`; it may fail, and the session is changed either way. -/
abbrev Operation (m : Type → Type) (σ α : Type) : Type :=
  ExceptT Error (StateT (Session σ) m) α

/-- The name and the descriptor of the initializer of a class. -/
def initializer : String × String :=
  ("<clinit>", "()V")

/-- The name and the descriptor of the method a program starts with. -/
def entryPoint : String × String :=
  ("main", "([Ljava/lang/String;)V")

variable {m : Type → Type} [Monad m] {σ : Type}

/-- Tells the observer. -/
def tell (engine : Engine m σ) (notice : Notice) : Operation m σ Unit :=
  modify fun session => session.notify engine.observer notice

/-- Reads a class from bytes and tells of bytes that are left over. -/
def parse (engine : Engine m σ) (bytes : List UInt8) : Operation m σ ClassFile :=
  match ClassFile.parseWithRest bytes with
  | .error error => throw (.malformed error)
  | .ok (classFile, []) => return classFile
  | .ok (classFile, rest) => do
    tell engine (.trailing rest.length)
    return classFile

/-- Adds a class under its own name, which must be new, and yields the name. -/
def register (engine : Engine m σ) (classFile : ClassFile) : Operation m σ String :=
  match classFile.name with
  | .error error => throw (.unresolved error)
  | .ok className => do
    let session ← get
    match session.classes.insertNew? className classFile with
    | none => throw (.alreadyLoaded className)
    | some classes =>
      set { session with classes }
      tell engine (.registered className)
      return className

/-- Runs a method and yields the end of the run, be it a failure. -/
def runMethod (engine : Engine m σ) (classFile : ClassFile) (method : Member)
    (arguments : List Int32) : Operation m σ Machine.Halt := do
  let session ← get
  let (halt, seen) ← engine.invoke session.machine classFile method arguments session.seen
  set { session with seen }
  return halt

/-- The value of a run that succeeded. -/
def outcome (halt : Machine.Halt) : Operation m σ Int32 :=
  match halt.outcome with
  | .ok value => return value
  | .error failure => throw (.failed failure)

/-- Runs the initializer of a class, if it has one. -/
def initialise (engine : Engine m σ) (className : String) (classFile : ClassFile) :
    Operation m σ Unit :=
  match classFile.findMethod? initializer.1 initializer.2 with
  | none => return ()
  | some method => do
    tell engine (.initializing className)
    let halt ← runMethod engine classFile method []
    discard (outcome halt)

/-- Reads a class from bytes, registers it and runs its initializer. -/
def load (engine : Engine m σ) (bytes : List UInt8) : Operation m σ ClassFile := do
  let classFile ← parse engine bytes
  let className ← register engine classFile
  initialise engine className classFile
  return classFile

/-- Loads a class from what a file holds, or fails for the reason why the file cannot be read. -/
def loadFile (engine : Engine m σ) (path : String) (contents : Except FileError (List UInt8)) :
    Operation m σ ClassFile :=
  match contents with
  | .error error => throw (.unreadable path error)
  | .ok bytes => do
    tell engine (.fileRead bytes.length path)
    load engine bytes

/-- Runs the method of a class that goes by the given name and descriptor. -/
def call (engine : Engine m σ) (target : MemberRef) (arguments : List Int32) :
    Operation m σ Int32 := do
  let session ← get
  match session.classes.find? target.className with
  | none => throw (.noClass target.className)
  | some classFile =>
    match classFile.findMethod? target.name target.descriptor with
    | none => throw (.noMethod target)
    | some method =>
      let halt ← runMethod engine classFile method arguments
      let value ← outcome halt
      tell engine (.completed target value halt.executed)
      return value

/-- Loads a class from what a file holds and runs the method its program starts with. -/
def execute (engine : Engine m σ) (path : String) (contents : Except FileError (List UInt8)) :
    Operation m σ Int32 := do
  let classFile ← loadFile engine path contents
  match classFile.name with
  | .error error => throw (.unresolved error)
  | .ok className =>
    call engine { className, name := entryPoint.1, descriptor := entryPoint.2 } []

end ClassMachine.Session
