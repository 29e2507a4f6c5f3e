/-
Classes as they stand in a file. The number of slots that a file states for its pool is not part
of the class, since a file may state one less than the pool has; so it is given beside it.
-/
import ClassMachine.ClassFile.Basic

namespace ClassMachine

/-- The constant as it stands in a file, a text after its length. -/
def Constant.encode (constant : Constant) : List UInt8 :=
  match constant.tag.payloadLength with
  | some _ => constant.tag.byte :: constant.payload
  | none =>
    constant.tag.byte :: Binary.bytes16 (UInt16.ofNat constant.payload.length) ++ constant.payload

/-- The member as it stands in a file. -/
def Member.encode (member : Member) : List UInt8 :=
  Binary.bytes16 member.accessFlags ++ Binary.bytes16 member.nameIndex
    ++ Binary.bytes16 member.descriptorIndex ++ Attribute.encodeAll member.attributes

/-- A list of members as it stands in a file, after its length. -/
def Member.encodeAll (members : List Member) : List UInt8 :=
  Binary.bytes16 (UInt16.ofNat members.length) ++ members.flatMap Member.encode

/-- A list of indices as it stands in a file, after its length. -/
def encodeIndices (indices : List UInt16) : List UInt8 :=
  Binary.bytes16 (UInt16.ofNat indices.length) ++ indices.flatMap Binary.bytes16

/-- The class as it stands in a file that states `count` slots for its pool. -/
def ClassFile.encode (classFile : ClassFile) (count : UInt16) : List UInt8 :=
  Binary.bytes32 magic
    ++ Binary.bytes16 classFile.minorVersion ++ Binary.bytes16 classFile.majorVersion
    ++ Binary.bytes16 count ++ classFile.pool.toList.flatMap Constant.encode
    ++ Binary.bytes16 classFile.accessFlags
    ++ Binary.bytes16 classFile.thisClass ++ Binary.bytes16 classFile.superClass
    ++ encodeIndices classFile.interfaces
    ++ Member.encodeAll classFile.fields ++ Member.encodeAll classFile.methods
    ++ Attribute.encodeAll classFile.attributes

end ClassMachine
