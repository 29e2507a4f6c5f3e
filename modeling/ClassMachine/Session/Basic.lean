/-
Sessions: a table of classes that grows as classes are loaded, the limits of every run, and the
state of the observer. Nothing else lasts from one operation to the next.
-/
import ClassMachine.ClassFile.Decode
import ClassMachine.Files.Error
import ClassMachine.Session.Engine

namespace ClassMachine

/-- What lasts from one operation to the next. -/
structure Session (σ : Type) where
  classes : ClassTable
  limits : Limits
  seen : σ

namespace Session

/-- Why an operation fails. -/
inductive Error where
  /-- The file could not be read. -/
  | unreadable (path : String) (error : FileError)
  | malformed (error : ClassFile.FormatError)
  | unresolved (error : ResolveError)
  | alreadyLoaded (className : String)
  | noClass (className : String)
  | noMethod (target : MemberRef)
  /-- A run ended in failure. -/
  | failed (failure : Failure)
  deriving DecidableEq

/-- The error in words. -/
def Error.message : Error → String
  | unreadable path error => "failed to read " ++ path ++ ": " ++ error.message
  | malformed error => "failed to parse class file: " ++ error.message
  | unresolved error => error.message
  | alreadyLoaded className => "class " ++ className ++ " is already loaded"
  | noClass className => "class " ++ className ++ " not found"
  | noMethod target => "method " ++ target.text ++ " not found"
  | failed failure => failure.message

/-- The session without classes. -/
def start {σ : Type} (limits : Limits) (seen : σ) : Session σ where
  classes := .empty
  limits
  seen

/-- The machine that runs over the classes of the session. -/
def machine {σ : Type} (session : Session σ) : Machine where
  classes := session.classes
  limits := session.limits

/-- Tells the observer of the session. -/
def notify {σ : Type} (session : Session σ) (observer : Observer σ) (notice : Notice) :
    Session σ :=
  { session with seen := observer.notify notice session.seen }

/-- The class of a name. -/
def find {σ : Type} (session : Session σ) (className : String) : Except Error ClassFile :=
  match session.classes.find? className with
  | some classFile => .ok classFile
  | none => .error (.noClass className)

end Session

end ClassMachine
