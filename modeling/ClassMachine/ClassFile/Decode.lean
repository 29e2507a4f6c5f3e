/-
Reading a class file. Indices are checked as soon as the pool is known and the record that holds
them is read, so a class that is read without error has names for itself, its super class, its
members and the attributes of all of these.
-/
import ClassMachine.ClassFile.Basic

namespace ClassMachine

open ClassFile

/-! ## The pool -/

/-- The number of payload bytes of a constant: its kind fixes it, or the file states it. -/
def Tag.readLength (tag : Tag) : Reader Nat :=
  match tag.payloadLength with
  | some length => return length
  | none => do return (← Reader.u16 .textLength).toNat

/-- Reads the constant for slot `index`. -/
def Constant.read (index : UInt16) : Reader Constant := do
  let byte ← Reader.u8 .constantTag
  match Tag.ofByte? byte with
  | none => throw (.unknownTag byte index)
  | some tag =>
    let length ← tag.readLength
    let payload ← Reader.bytes .constantPayload length
    return { tag, payload }

/-- Adds constants to the pool until `missing` more slots are taken. A wide constant takes two,
also where only one was missing. -/
def Pool.readMissing : (missing : Nat) → Pool → Reader Pool
  | 0, pool => return pool
  | 1, pool => do
    let constant ← Constant.read (UInt16.ofNat pool.count)
    return pool.push constant
  | missing + 2, pool => do
    let constant ← Constant.read (UInt16.ofNat pool.count)
    if constant.tag.isWide then
      readMissing missing (pool.push constant)
    else
      readMissing (missing + 1) (pool.push constant)

/-- Reads a pool after its number of slots, in which slot 0 counts. -/
def Pool.read : Reader Pool := do
  let count ← Reader.u16 .poolCount
  readMissing (count.toNat - 1) empty

/-! ## Indices -/

/-- Refuses an index that does not lead to a text. -/
def Pool.requireText (pool : Pool) (holder : Holder) (index : UInt16) : Except FormatError Unit :=
  match pool.utf8 index with
  | .ok _ => .ok ()
  | .error _ => .error (.badReference holder index .utf8)

/-- Refuses an index that does not lead to the name of a class. -/
def Pool.requireClass (pool : Pool) (holder : Holder) (index : UInt16) : Except FormatError Unit :=
  match pool.className index with
  | .ok _ => .ok ()
  | .error _ => .error (.badReference holder index .classRef)

/-- Refuses an index that does not lead to the name of a super class; zero says there is none. -/
def Pool.requireSuper (pool : Pool) (index : UInt16) : Except FormatError Unit :=
  if index = 0 then .ok () else pool.requireClass .superClass index

/-- Refuses attributes of which one has no name. -/
def Pool.requireNames (pool : Pool) (attributes : List Attribute) : Except FormatError Unit :=
  attributes.forM fun attr => pool.requireText .attributeName attr.nameIndex

/-! ## Members and classes -/

/-- Reads a field or a method, as `holder` says. -/
def Member.read (pool : Pool) (holder : Holder) : Reader Member := do
  let accessFlags ← Reader.u16 .memberAccessFlags
  let nameIndex ← Reader.u16 .memberNameIndex
  let descriptorIndex ← Reader.u16 .memberDescriptorIndex
  pool.requireText holder nameIndex
  pool.requireText holder descriptorIndex
  let attributes ← Attribute.readAll
  pool.requireNames attributes
  return { accessFlags, nameIndex, descriptorIndex, attributes }

namespace ClassFile

/-- Refuses any first number but the magic one. -/
def requireMagic (found : UInt32) : Except FormatError Unit :=
  if found = magic then .ok () else .error (.badMagic found)

/-- Reads a class. -/
def read : Reader ClassFile := do
  let found ← Reader.u32 .magic
  requireMagic found
  let minorVersion ← Reader.u16 .minorVersion
  let majorVersion ← Reader.u16 .majorVersion
  let pool ← Pool.read
  let accessFlags ← Reader.u16 .accessFlags
  let thisClass ← Reader.u16 .thisClass
  pool.requireClass .thisClass thisClass
  let superClass ← Reader.u16 .superClass
  pool.requireSuper superClass
  let interfaces ← Reader.counted .interfaceCount (Reader.u16 .interfaceIndex)
  let fields ← Reader.counted .fieldCount (Member.read pool .field)
  let methods ← Reader.counted .methodCount (Member.read pool .method)
  let attributes ← Attribute.readAll
  pool.requireNames attributes
  return { minorVersion, majorVersion, pool, accessFlags, thisClass, superClass, interfaces, fields,
           methods, attributes }

/-- The class that bytes hold and the bytes after it. -/
def parseWithRest (bytes : List UInt8) : Except FormatError (ClassFile × List UInt8) := do
  let (classFile, cursor) ← read (Cursor.start bytes)
  return (classFile, cursor.rest)

/-- The class that bytes hold; bytes after it are ignored. -/
def parse (bytes : List UInt8) : Except FormatError ClassFile := do
  return (← parseWithRest bytes).1

end ClassFile

end ClassMachine
