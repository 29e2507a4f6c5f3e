/-
The command. It reads the class file, lets the program run in batches of rounds, and between
batches looks at the clock and writes out what the console holds.
-/
import ClassMachine.CommandLine

open ClassMachine CommandLine

namespace ClassMachine.Main

/-- Rounds between two looks at the clock. -/
def batch : Nat :=
  4096

/-- Writes out what the console holds and empties it. -/
def flush (console : Console) : IO Console := do
  let (output, journal) := console
  if !output.isEmpty then
    let stdout ← IO.getStdout
    stdout.putStr output
    stdout.flush
  for line in journal.lines do
    IO.eprintln line
  return ("", Journal.empty journal.threshold)

/-- Brings a run to its end, however long it takes. -/
partial def finish (observer : Observer Console) (machine : Machine) (start : Nat)
    (state : Machine.State) (console : Console) : IO (Machine.Halt × Console) := do
  let elapsed := (← IO.monoNanosNow) - start
  match machine.run observer (fun _ => elapsed) batch state console with
  | .finished halt console => return (halt, ← flush console)
  | .paused state console => finish observer machine start state (← flush console)

/-- Runs in real time. -/
def engine (observer : Observer Console) : Engine IO Console where
  observer
  finish machine state console := do
    finish observer machine (← IO.monoNanosNow) state console

/-- The number of an error, which the system gives with or without a minus sign. -/
def number? : IO.Error → Option Nat
  | .noFileOrDirectory _ code _ | .inappropriateType _ code _ | .permissionDenied _ code _
  | .invalidArgument _ code _ => some (code.toInt32.toInt.natAbs)
  | .otherError code _ => some (code.toInt32.toInt.natAbs)
  | _ => none

/-- Why a file cannot be read. -/
def fileError (error : IO.Error) : FileError :=
  ((number? error).bind FileError.ofNumber?).getD (.other (toString error))

/-- What a file holds, or why it cannot be read. -/
def contents (path : String) : IO (Except FileError (List UInt8)) := do
  try
    return .ok (← IO.FS.readBinFile path).toList
  catch error =>
    return .error (fileError error)

end ClassMachine.Main

open ClassMachine.Main in
/-- Runs the program of the class file that the arguments name. -/
def main (arguments : List String) : IO UInt32 := do
  let report ←
    match parse arguments with
    | .error refusal =>
      if let .misuse error := refusal then
        IO.eprintln error.message
        IO.eprint usage
      pure refusal.report
    | .ok options =>
      IO.eprintln (Level.info.line ("Running " ++ options.path))
      let (report, console) ←
        options.run (engine options.observer) (← contents options.path) ("", Journal.empty .info)
      discard (flush console)
      pure report
  IO.print report.output
  if let some error := report.error then
    IO.eprintln (Level.error.line error)
  return report.exitCode
