/-
Why a file cannot be read, in the words and with the numbers of the operating system.
-/
import ClassMachine.Text.Layout

namespace ClassMachine

/-- Why a file cannot be read. -/
inductive FileError where
  | notFound
  | permissionDenied
  /-- The path goes on behind something that is no directory. -/
  | notDirectory
  /-- The path leads to a directory. -/
  | isDirectory
  | nameTooLong
  /-- A reason without a constructor of its own, in words. -/
  | other (reason : String)
  deriving DecidableEq

namespace FileError

/-- The words and the number of an error. -/
def withNumber (words : String) (number : Nat) : String :=
  words ++ " (os error " ++ Text.decimal number ++ ")"

/-- The error in words. -/
def message : FileError → String
  | notFound => withNumber "No such file or directory" 2
  | permissionDenied => withNumber "Permission denied" 13
  | notDirectory => withNumber "Not a directory" 20
  | isDirectory => withNumber "Is a directory" 21
  | nameTooLong => withNumber "File name too long" 36
  | other reason => reason

/-- The error of a number. -/
def ofNumber? : Nat → Option FileError
  | 2 => some notFound
  | 13 => some permissionDenied
  | 20 => some notDirectory
  | 21 => some isDirectory
  | 36 => some nameTooLong
  | _ => none

end FileError

end ClassMachine
