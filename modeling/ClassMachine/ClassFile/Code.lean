/-
The `Code` attribute of a method: how much room its frames need, its instructions, the ranges that
exception handlers cover, and attributes of its own. Bytes after the last of these are ignored.
-/
import ClassMachine.ClassFile.Attribute

namespace ClassMachine

/-- A range of the code and the place of the handler for exceptions in it. -/
structure Handler where
  start : UInt16
  stop : UInt16
  target : UInt16
  catchType : UInt16
  deriving DecidableEq

/-- The code of a method. -/
structure Code where
  maxStack : UInt16
  maxLocals : UInt16
  bytes : Array UInt8
  handlers : List Handler
  attributes : List Attribute
  deriving DecidableEq

open ClassFile

/-- Reads a handler. -/
def Handler.read : Reader Handler := do
  let start ← Reader.u16 .handlerStart
  let stop ← Reader.u16 .handlerEnd
  let target ← Reader.u16 .handlerTarget
  let catchType ← Reader.u16 .handlerCatchType
  return { start, stop, target, catchType }

/-- The handler as it stands in a file. -/
def Handler.encode (handler : Handler) : List UInt8 :=
  Binary.bytes16 handler.start ++ Binary.bytes16 handler.stop ++ Binary.bytes16 handler.target
    ++ Binary.bytes16 handler.catchType

namespace Code

/-- Reads the code of a method. -/
def read : Reader Code := do
  let maxStack ← Reader.u16 .maxStack
  let maxLocals ← Reader.u16 .maxLocals
  let length ← Reader.u32 .codeLength
  let bytes ← Reader.bytes .code length.toNat
  let handlers ← Reader.counted .handlerCount Handler.read
  let attributes ← Attribute.readAll
  return { maxStack, maxLocals, bytes := bytes.toArray, handlers, attributes }

/-- The code that the bytes of an attribute hold. -/
def decode (info : List UInt8) : Except FormatError Code := do
  let (code, _) ← read (Cursor.start info)
  return code

/-- The bytes of the attribute that holds the code. -/
def encode (code : Code) : List UInt8 :=
  Binary.bytes16 code.maxStack ++ Binary.bytes16 code.maxLocals
    ++ Binary.bytes32 (UInt32.ofNat code.bytes.size) ++ code.bytes.toList
    ++ Binary.bytes16 (UInt16.ofNat code.handlers.length) ++ code.handlers.flatMap Handler.encode
    ++ Attribute.encodeAll code.attributes

end Code

end ClassMachine
