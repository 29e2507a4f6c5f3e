/-
The command line: one class file, whose program is run, and options for a trace and for the limits.
Options may stand anywhere; after `--` there are no more options. The result goes to the standard
output after the trace, an error to the journal.
-/
import ClassMachine.Journal
import ClassMachine.Session.Operations
import ClassMachine.Trace

namespace ClassMachine.CommandLine

/-- What a command line asks for. -/
structure Options where
  path : String
  trace : Bool
  limits : Limits
  deriving DecidableEq

/-- The options that set a limit. -/
inductive Setting where
  | instructions
  | callDepth
  | deadline
  deriving DecidableEq

/-- The name of the option. -/
def Setting.name : Setting → String
  | instructions => "instruction-limit"
  | callDepth => "max-call-depth"
  | deadline => "deadline-ms"

/-- The option of a name. -/
def Setting.ofName? (name : String) : Option Setting :=
  [instructions, callDepth, deadline].find? fun setting => setting.name == name

/-- Why a command line asks for nothing. -/
inductive UsageError where
  | noPath
  | emptyPath
  | secondPath (text : String)
  | unknownOption (text : String)
  | repeatedOption (name : String)
  | unwantedValue (name : String)
  | noValue (name : String)
  | notANumber (name value : String)
  deriving DecidableEq

/-- The error in words. -/
def UsageError.message : UsageError → String
  | noPath => "no class file given"
  | emptyPath => "the path of the class file is empty"
  | secondPath text => "unexpected argument " ++ text
  | unknownOption text => "unknown option " ++ text
  | repeatedOption name => "option --" ++ name ++ " given twice"
  | unwantedValue name => "option --" ++ name ++ " takes no value"
  | noValue name => "option --" ++ name ++ " needs a value"
  | notANumber name value => "option --" ++ name ++ " takes a number, not " ++ value

/-- How the command is used. -/
def usage : String :=
  "usage: classmachine [--trace] [--instruction-limit N] [--max-call-depth N] [--deadline-ms N]"
    ++ " CLASS\n"

/-- Why a command line is not carried out. -/
inductive Refusal where
  /-- It asks how the command is used. -/
  | help
  | misuse (error : UsageError)
  deriving DecidableEq

/-! ## Reading arguments -/

/-- The value of decimal digits, of which there must be at least one. -/
def digitsValue? (digits : List Char) : Option Nat :=
  if digits.isEmpty || !digits.all Char.isDigit then none
  else some (digits.foldl (fun value digit => value * 10 + (digit.toNat - '0'.toNat)) 0)

/-- A number below 2^64 in decimal, with or without a plus sign. -/
def number? (text : String) : Option Nat :=
  let digits :=
    match text.toList with
    | '+' :: digits => digits
    | digits => digits
  (digitsValue? digits).filter (· < UInt64.size)

/-- An argument by its shape. -/
inductive Argument where
  /-- The end of the options. -/
  | separator
  /-- An option with a long name and the value after its equals sign. -/
  | option (name : String) (value : Option String)
  /-- Options with names of one letter. -/
  | letters (text : String)
  | path (text : String)
  deriving DecidableEq

/-- The shape of an argument; a dash alone is a path. -/
def Argument.ofText (text : String) : Argument :=
  match text.toList with
  | ['-', '-'] => .separator
  | '-' :: '-' :: body =>
    let name := String.ofList (body.takeWhile (· != '='))
    match body.dropWhile (· != '=') with
    | [] => .option name none
    | _ :: value => .option name (some (String.ofList value))
  | '-' :: _ :: _ => .letters text
  | _ => .path text

/-- What the arguments read so far ask for. -/
structure Draft where
  path : Option String := none
  trace : Bool := false
  instructions : Option Nat := none
  callDepth : Option Nat := none
  deadline : Option Nat := none
  deriving DecidableEq

namespace Draft

/-- Takes the path, which must be the only one. -/
def setPath (draft : Draft) (text : String) : Except Refusal Draft :=
  if text.isEmpty then .error (.misuse .emptyPath)
  else if draft.path.isSome then .error (.misuse (.secondPath text))
  else .ok { draft with path := some text }

/-- Takes the option for a trace. -/
def setTrace (draft : Draft) : Except Refusal Draft :=
  if draft.trace then .error (.misuse (.repeatedOption "trace"))
  else .ok { draft with trace := true }

/-- The limit that was set so far. -/
def get (draft : Draft) : Setting → Option Nat
  | .instructions => draft.instructions
  | .callDepth => draft.callDepth
  | .deadline => draft.deadline

/-- Sets a limit that was not set yet. -/
def set (draft : Draft) (setting : Setting) (value : String) : Except Refusal Draft :=
  if (draft.get setting).isSome then .error (.misuse (.repeatedOption setting.name))
  else
    match number? value with
    | none => .error (.misuse (.notANumber setting.name value))
    | some limit =>
      match setting with
      | .instructions => .ok { draft with instructions := some limit }
      | .callDepth => .ok { draft with callDepth := some limit }
      | .deadline => .ok { draft with deadline := some limit }

/-- What a finished draft asks for; the depth of calls is limited even if no option says so. -/
def finish (draft : Draft) : Except Refusal Options :=
  match draft.path with
  | none => .error (.misuse .noPath)
  | some path =>
    let limits : Limits := {}
    .ok {
      path
      trace := draft.trace
      limits := {
        instructions := draft.instructions
        callDepth := draft.callDepth.getD limits.callDepth
        deadline := draft.deadline } }

end Draft

/-- Reads arguments one after the other into a draft. The value of an option is what follows its
equals sign, or the next argument if that does not look like an option. -/
def scan : List String → Draft → Except Refusal Draft
  | [], draft => .ok draft
  | argument :: rest, draft =>
    match Argument.ofText argument with
    | .separator => rest.foldlM Draft.setPath draft
    | .path text => do scan rest (← draft.setPath text)
    | .letters "-h" => .error .help
    | .letters text => .error (.misuse (.unknownOption text))
    | .option "help" none => .error .help
    | .option "trace" none => do scan rest (← draft.setTrace)
    | .option "trace" (some _) => .error (.misuse (.unwantedValue "trace"))
    | .option name value =>
      match Setting.ofName? name with
      | none => .error (.misuse (.unknownOption ("--" ++ name)))
      | some setting =>
        match value with
        | some value => do scan rest (← draft.set setting value)
        | none =>
          match rest with
          | [] => .error (.misuse (.noValue name))
          | next :: rest =>
            match Argument.ofText next with
            | .path value => do scan rest (← draft.set setting value)
            | _ => .error (.misuse (.noValue name))

/-- What the arguments ask for. -/
def parse (arguments : List String) : Except Refusal Options := do
  (← scan arguments {}).finish

/-! ## Carrying it out -/

/-- How a command ends. -/
structure Report where
  exitCode : UInt32
  /-- What goes to the standard output after the trace. -/
  output : String
  /-- What goes to the journal as an error. -/
  error : Option String
  deriving DecidableEq

/-- The end of a command that was not carried out. -/
def Refusal.report : Refusal → Report
  | help => { exitCode := 0, output := usage, error := none }
  | misuse _ => { exitCode := 2, output := "", error := none }

/-- The end of a command that ran a program. -/
def Report.ofResult : Except Session.Error Int32 → Report
  | .ok value => { exitCode := 0, output := Text.signed value.toInt ++ "\n", error := none }
  | .error error => { exitCode := 1, output := "", error := some error.message }

/-- What a command leaves while it runs: trace lines and the journal. -/
abbrev Console : Type :=
  String × Journal

namespace Options

/-- Writes trace lines if they are asked for, and keeps the journal. -/
def observer (options : Options) : Observer Console :=
  let hook := if options.trace then Sink.memory.hook else Hook.off
  hook.observer.both Journal.observer

/-- Runs the program of the class file, given what the file holds. -/
def run {m : Type → Type} [Monad m] {σ : Type} (options : Options) (engine : Engine m σ)
    (contents : Except FileError (List UInt8)) (seen : σ) : m (Report × σ) := do
  let operation := Session.execute engine options.path contents
  let (result, session) ← operation.run.run (Session.start options.limits seen)
  return (Report.ofResult result, session.seen)

end Options

end ClassMachine.CommandLine
