/-
What an index into the pool stands for. Constants refer to one another by index: a class to its
name, a member reference to a class and to a name with its descriptor. Following such a chain
fails at the first link that is broken, and the error names that link.
-/
import ClassMachine.Binary.BigEndian
import ClassMachine.Pool.Basic
import ClassMachine.Text.Layout
import ClassMachine.Text.ModifiedUtf8

namespace ClassMachine

/-- Why an index does not stand for what is asked of it. -/
inductive ResolveError where
  /-- The pool of `size` slots has no slot of this number. -/
  | outOfRange (index : UInt16) (size : Nat)
  /-- The slot is empty. -/
  | emptySlot (index : UInt16)
  /-- The slot holds a constant of another kind. -/
  | wrongTag (index : UInt16) (expected found : Tag)
  /-- The payload of the constant has the wrong size. -/
  | badPayload (index : UInt16) (tag : Tag)
  /-- The payload of the constant spells no text. -/
  | badText (index : UInt16)
  deriving DecidableEq

/-- The error in words. -/
def ResolveError.message : ResolveError → String
  | outOfRange index size =>
    "constant pool index " ++ Text.decimal index.toNat ++ " out of range (pool size "
      ++ Text.decimal size ++ ")"
  | emptySlot index =>
    "constant pool index " ++ Text.decimal index.toNat ++ " does not hold an entry"
  | wrongTag index expected found =>
    "constant #" ++ Text.decimal index.toNat ++ ": expected " ++ expected.name ++ ", found "
      ++ found.name
  | badPayload index tag =>
    "constant #" ++ Text.decimal index.toNat ++ ": malformed " ++ tag.name ++ " payload"
  | badText index =>
    "constant #" ++ Text.decimal index.toNat ++ ": invalid modified UTF-8 payload"

/-- A member of a class by the names it goes by. -/
structure MemberRef where
  className : String
  name : String
  descriptor : String
  deriving DecidableEq

/-- The member as written in messages. -/
def MemberRef.text (target : MemberRef) : String :=
  target.className ++ "." ++ target.name ++ target.descriptor

namespace Pool

/-- The constant in a slot. -/
def get (pool : Pool) (index : UInt16) : Except ResolveError Constant :=
  match pool.slots[index.toNat]? with
  | some (some constant) => .ok constant
  | some none => .error (.emptySlot index)
  | none => .error (.outOfRange index pool.count)

/-- The kind of the constant in a slot. -/
def tag (pool : Pool) (index : UInt16) : Except ResolveError Tag := do
  return (← pool.get index).tag

/-- The payload of the constant in a slot, which must be of the given kind. -/
def payload (pool : Pool) (expected : Tag) (index : UInt16) : Except ResolveError (List UInt8) := do
  let constant ← pool.get index
  if constant.tag = expected then
    return constant.payload
  else
    throw (.wrongTag index expected constant.tag)

/-- The index that stands `offset` bytes into the payload of a constant of the given kind. -/
def link (pool : Pool) (expected : Tag) (index : UInt16) (offset : Nat) :
    Except ResolveError UInt16 := do
  match (← pool.payload expected index).drop offset with
  | a :: b :: _ => return Binary.join16 a b
  | _ => throw (.badPayload index expected)

/-- The text a constant spells. -/
def utf8 (pool : Pool) (index : UInt16) : Except ResolveError String := do
  match Text.ModifiedUtf8.decode? (← pool.payload .utf8 index) with
  | some text => return text
  | none => throw (.badText index)

/-- The number an integer constant stands for. -/
def integer (pool : Pool) (index : UInt16) : Except ResolveError Int32 := do
  match ← pool.payload .integer index with
  | [a, b, c, d] => return (Binary.join32 a b c d).toInt32
  | _ => throw (.badPayload index .integer)

/-- The name of the class a constant refers to. -/
def className (pool : Pool) (index : UInt16) : Except ResolveError String := do
  pool.utf8 (← pool.link .classRef index 0)

/-- The text a string constant refers to. -/
def string (pool : Pool) (index : UInt16) : Except ResolveError String := do
  pool.utf8 (← pool.link .string index 0)

/-- The name and the descriptor a constant refers to. -/
def nameAndType (pool : Pool) (index : UInt16) : Except ResolveError (String × String) := do
  let nameIndex ← pool.link .nameAndType index 0
  let descriptorIndex ← pool.link .nameAndType index 2
  let name ← pool.utf8 nameIndex
  let descriptor ← pool.utf8 descriptorIndex
  return (name, descriptor)

/-- The member a reference of the given kind stands for: its class, then its name and descriptor. -/
def memberRef (pool : Pool) (kind : Tag) (index : UInt16) : Except ResolveError MemberRef := do
  let classIndex ← pool.link kind index 0
  let nameAndTypeIndex ← pool.link kind index 2
  let className ← pool.className classIndex
  let (name, descriptor) ← pool.nameAndType nameAndTypeIndex
  return { className, name, descriptor }

/-- The field a reference stands for. -/
def fieldRef (pool : Pool) (index : UInt16) : Except ResolveError MemberRef :=
  pool.memberRef .fieldRef index

/-- The method a reference stands for. -/
def methodRef (pool : Pool) (index : UInt16) : Except ResolveError MemberRef :=
  pool.memberRef .methodRef index

/-- The interface method a reference stands for. -/
def interfaceMethodRef (pool : Pool) (index : UInt16) : Except ResolveError MemberRef :=
  pool.memberRef .interfaceMethodRef index

end Pool

end ClassMachine
