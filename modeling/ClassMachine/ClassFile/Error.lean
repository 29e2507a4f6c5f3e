/-
Why bytes are no class file. There are four causes: the bytes end too early, the first number is
not the magic one, a constant is of no known kind, or an index does not stand for what its holder
needs.
-/
import ClassMachine.ClassFile.Item
import ClassMachine.Constant.Tag
import ClassMachine.Text.Layout

namespace ClassMachine.ClassFile

/-- What holds an index that a reader of class files checks. -/
inductive Holder where
  | thisClass
  | superClass
  | field
  | method
  | attributeName
  deriving DecidableEq

/-- The holder in messages. -/
def Holder.name : Holder → String
  | thisClass => "this class"
  | superClass => "super class"
  | field => "field"
  | method => "method"
  | attributeName => "attribute name"

/-- Why bytes are no class file. -/
inductive FormatError where
  /-- The file starts with another number. -/
  | badMagic (found : UInt32)
  /-- The item that starts at `offset` does not fit into the bytes. -/
  | truncated (item : Item) (offset : Nat)
  /-- The constant for slot `index` is announced by a byte of no kind. -/
  | unknownTag (byte : UInt8) (index : UInt16)
  /-- The index does not lead to a constant of the kind expected, or to no sound one. -/
  | badReference (holder : Holder) (index : UInt16) (expected : Tag)
  deriving DecidableEq

/-- The error in words. -/
def FormatError.message : FormatError → String
  | badMagic found => "bad magic 0x" ++ Text.hex 8 found.toNat ++ ", expected 0xcafebabe"
  | truncated item offset =>
    "unexpected end of input at byte " ++ Text.decimal offset ++ " while reading " ++ item.name
  | unknownTag byte index =>
    "unknown constant pool tag " ++ Text.decimal byte.toNat ++ " at entry #"
      ++ Text.decimal index.toNat
  | badReference holder index expected =>
    holder.name ++ " refers to constant #" ++ Text.decimal index.toNat ++ ", expected "
      ++ expected.name

end ClassMachine.ClassFile
