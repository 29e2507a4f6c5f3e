/-
Attributes: named runs of bytes that classes, members and code carry. A reader keeps the bytes of
an attribute as they are and looks into them only when asked.
-/
import ClassMachine.ClassFile.Reader
import ClassMachine.Pool.Resolve

namespace ClassMachine

/-- An attribute: the index of its name and its bytes. -/
structure Attribute where
  nameIndex : UInt16
  info : List UInt8
  deriving DecidableEq

namespace Attribute

open ClassFile

/-- The name of the attribute. -/
def name (attr : Attribute) (pool : Pool) : Except ResolveError String :=
  pool.utf8 attr.nameIndex

/-- Reads one attribute. -/
def read : Reader Attribute := do
  let nameIndex ← Reader.u16 .attributeNameIndex
  let length ← Reader.u32 .attributeLength
  let info ← Reader.bytes .attributePayload length.toNat
  return { nameIndex, info }

/-- Reads a list of attributes after its length. -/
def readAll : Reader (List Attribute) :=
  Reader.counted .attributeCount read

/-- The attribute as it stands in a file. -/
def encode (attr : Attribute) : List UInt8 :=
  Binary.bytes16 attr.nameIndex ++ Binary.bytes32 (UInt32.ofNat attr.info.length)
    ++ attr.info

/-- A list of attributes as it stands in a file, after its length. -/
def encodeAll (attributes : List Attribute) : List UInt8 :=
  Binary.bytes16 (UInt16.ofNat attributes.length) ++ attributes.flatMap encode

/-- The first attribute that has the given name. -/
def find? (attributes : List Attribute) (pool : Pool) (name : String) : Option Attribute :=
  attributes.find? fun attr =>
    match attr.name pool with
    | .ok found => found == name
    | .error _ => false

/-- An attribute that its owner does not have. -/
structure Missing where
  name : String
  owner : String
  deriving DecidableEq

/-- The error in words. -/
def Missing.message (missing : Missing) : String :=
  "attribute " ++ missing.name ++ " not found on " ++ missing.owner

/-- The first attribute that has the given name, or the error that names the owner of the list. -/
def find (attributes : List Attribute) (pool : Pool) (name owner : String) :
    Except Missing Attribute :=
  match find? attributes pool name with
  | some attr => .ok attr
  | none => .error { name, owner }

end Attribute

end ClassMachine
