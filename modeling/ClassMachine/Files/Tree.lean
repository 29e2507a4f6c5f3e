/-
Files in memory: directories with files at their leaves, and the rules by which a path leads
through them. A path is followed name by name from the root or from the working directory, and the
first name that leads nowhere decides the error.
-/
import ClassMachine.Files.Error

namespace ClassMachine

/-- A file, or a directory and what it holds. -/
inductive FileTree where
  | file (bytes : List UInt8)
  | directory (entries : List (String × FileTree))

namespace FileTree

/-- Follows names from `here`, a node below the directories `above`, the closest first. An empty
name and a dot stay in a directory, two dots go to the one above, and the root is above itself. -/
def walk : (above : List FileTree) → (here : FileTree) → List String → Except FileError FileTree
  | _, here, [] => .ok here
  | _, .file _, _ :: _ => .error .notDirectory
  | above, .directory entries, name :: rest =>
    if name = "" ∨ name = "." then
      walk above (.directory entries) rest
    else if name = ".." then
      match above with
      | [] => walk [] (.directory entries) rest
      | parent :: above => walk above parent rest
    else if 255 < name.utf8ByteSize then
      .error .nameTooLong
    else
      match entries.lookup name with
      | none => .error .notFound
      | some next => walk (.directory entries :: above) next rest

end FileTree

/-- A tree and the names that lead from its root to the working directory. -/
structure FileSystem where
  root : FileTree
  workingDirectory : List String

namespace FileSystem

/-- The names between the slashes of a path. A slash at the start or at the end leaves an empty
name there. -/
def names : List Char → List (List Char)
  | [] => [[]]
  | '/' :: rest => [] :: names rest
  | c :: rest =>
    match names rest with
    | [] => [[c]]
    | name :: more => (c :: name) :: more

/-- What a path leads to: a path that starts with a slash is followed from the root. A path of
4096 bytes or more is refused unseen, and so is the empty one. -/
def find (files : FileSystem) (path : String) : Except FileError FileTree :=
  let steps := (names path.toList).map String.ofList
  if path.isEmpty then .error .notFound
  else if 4096 ≤ path.utf8ByteSize then .error .nameTooLong
  else if path.toList.head? = some '/' then FileTree.walk [] files.root steps
  else FileTree.walk [] files.root (files.workingDirectory ++ steps)

/-- The bytes of the file that a path leads to. -/
def read (files : FileSystem) (path : String) : Except FileError (List UInt8) := do
  match ← files.find path with
  | .file bytes => return bytes
  | .directory _ => throw .isDirectory

end FileSystem

end ClassMachine
