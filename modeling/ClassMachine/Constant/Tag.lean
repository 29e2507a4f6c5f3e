/-
The kinds of constants: the byte that announces each in a class file, the size of what follows it,
and the number of slots it takes in the pool.
-/
namespace ClassMachine

/-- The kind of a constant. -/
inductive Tag where
  | utf8
  | integer
  | float
  | long
  | double
  | classRef
  | string
  | fieldRef
  | methodRef
  | interfaceMethodRef
  | nameAndType
  | methodHandle
  | methodType
  | invokeDynamic
  deriving DecidableEq

namespace Tag

/-- The byte that announces a constant of this kind. -/
def byte : Tag → UInt8
  | utf8 => 1
  | integer => 3
  | float => 4
  | long => 5
  | double => 6
  | classRef => 7
  | string => 8
  | fieldRef => 9
  | methodRef => 10
  | interfaceMethodRef => 11
  | nameAndType => 12
  | methodHandle => 15
  | methodType => 16
  | invokeDynamic => 18

/-- The kind a byte announces, if any. -/
def ofByte? : UInt8 → Option Tag
  | 1 => some utf8
  | 3 => some integer
  | 4 => some float
  | 5 => some long
  | 6 => some double
  | 7 => some classRef
  | 8 => some string
  | 9 => some fieldRef
  | 10 => some methodRef
  | 11 => some interfaceMethodRef
  | 12 => some nameAndType
  | 15 => some methodHandle
  | 16 => some methodType
  | 18 => some invokeDynamic
  | _ => none

/-- The name of the kind in messages. -/
def name : Tag → String
  | utf8 => "Utf8"
  | integer => "Integer"
  | float => "Float"
  | long => "Long"
  | double => "Double"
  | classRef => "Class"
  | string => "String"
  | fieldRef => "Fieldref"
  | methodRef => "Methodref"
  | interfaceMethodRef => "InterfaceMethodref"
  | nameAndType => "NameAndType"
  | methodHandle => "MethodHandle"
  | methodType => "MethodType"
  | invokeDynamic => "InvokeDynamic"

/-- The number of payload bytes, `none` for a text, whose length the file states. -/
def payloadLength : Tag → Option Nat
  | utf8 => none
  | classRef | string | methodType => some 2
  | methodHandle => some 3
  | integer | float | fieldRef | methodRef | interfaceMethodRef | nameAndType | invokeDynamic =>
    some 4
  | long | double => some 8

/-- Whether a constant of this kind leaves the slot after it empty. -/
def isWide : Tag → Bool
  | long | double => true
  | _ => false

/-- The byte of a kind announces that kind. -/
@[simp] theorem ofByte?_byte (tag : Tag) : ofByte? tag.byte = some tag := by
  cases tag <;> rfl

end Tag

end ClassMachine
