/-
The instructions the machine knows: the byte of each, its name, and the operand that follows it
in the code. An instruction's length is one byte and its operand's.
-/
namespace ClassMachine

/-- An instruction without its operand, in the order of the bytes. -/
inductive Opcode where
  | iconst1
  | bipush
  | ldc
  | iload0
  | pop
  | isub
  | imul
  | ifIcmpne
  | goto
  | ireturn
  | voidReturn
  | getstatic
  | invokestatic
  deriving DecidableEq

/-- What stands in the code after the byte of an instruction. -/
inductive OperandForm where
  /-- Nothing. -/
  | absent
  /-- A signed number of one byte. -/
  | immediate
  /-- A pool index of one byte. -/
  | shortIndex
  /-- A pool index of two bytes. -/
  | index
  /-- A signed distance of two bytes, from the instruction's own place. -/
  | offset
  deriving DecidableEq

/-- The number of bytes of an operand. -/
def OperandForm.width : OperandForm → Nat
  | absent => 0
  | immediate | shortIndex => 1
  | index | offset => 2

namespace Opcode

/-- All instructions in the order of their bytes. -/
def all : List Opcode :=
  [iconst1, bipush, ldc, iload0, pop, isub, imul, ifIcmpne, goto, ireturn, voidReturn, getstatic,
    invokestatic]

/-- The byte of an instruction. -/
def byte : Opcode → UInt8
  | iconst1 => 0x04
  | bipush => 0x10
  | ldc => 0x12
  | iload0 => 0x1a
  | pop => 0x57
  | isub => 0x64
  | imul => 0x68
  | ifIcmpne => 0xa0
  | goto => 0xa7
  | ireturn => 0xac
  | voidReturn => 0xb1
  | getstatic => 0xb2
  | invokestatic => 0xb8

/-- The instruction of a byte, if the machine knows it. -/
def ofByte? : UInt8 → Option Opcode
  | 0x04 => some iconst1
  | 0x10 => some bipush
  | 0x12 => some ldc
  | 0x1a => some iload0
  | 0x57 => some pop
  | 0x64 => some isub
  | 0x68 => some imul
  | 0xa0 => some ifIcmpne
  | 0xa7 => some goto
  | 0xac => some ireturn
  | 0xb1 => some voidReturn
  | 0xb2 => some getstatic
  | 0xb8 => some invokestatic
  | _ => none

/-- The name of an instruction. -/
def mnemonic : Opcode → String
  | iconst1 => "iconst_1"
  | bipush => "bipush"
  | ldc => "ldc"
  | iload0 => "iload_0"
  | pop => "pop"
  | isub => "isub"
  | imul => "imul"
  | ifIcmpne => "if_icmpne"
  | goto => "goto"
  | ireturn => "ireturn"
  | voidReturn => "return"
  | getstatic => "getstatic"
  | invokestatic => "invokestatic"

/-- The operand an instruction takes. -/
def form : Opcode → OperandForm
  | bipush => .immediate
  | ldc => .shortIndex
  | getstatic | invokestatic => .index
  | ifIcmpne | goto => .offset
  | iconst1 | iload0 | pop | isub | imul | ireturn | voidReturn => .absent

/-- The number of bytes an instruction takes in the code. -/
def length (opcode : Opcode) : Nat :=
  1 + opcode.form.width

/-- The byte of an instruction is that instruction's. -/
@[simp] theorem ofByte?_byte (opcode : Opcode) : ofByte? opcode.byte = some opcode := by
  cases opcode <;> rfl

/-- Every instruction takes at least a byte. -/
theorem length_pos (opcode : Opcode) : 0 < opcode.length := by
  simp only [length]
  omega

end Opcode

end ClassMachine
