/-
Instructions with their operands: how they are written in code, read back and named in traces.
Reading looks at one place of the code only; it fails there if the byte belongs to no instruction
or if the code ends before the operand does.
-/
import ClassMachine.Binary.BigEndian
import ClassMachine.Instruction.Opcode
import ClassMachine.Text.Layout

namespace ClassMachine

/-- The operand of an instruction. -/
inductive Operand where
  | absent
  | immediate (value : Int32)
  | index (slot : UInt16)
  | offset (distance : Int16)
  deriving DecidableEq

/-- The operand as shown in messages about operands. -/
def Operand.description : Operand → String
  | absent => "None"
  | immediate value => "Immediate(" ++ Text.signed value.toInt ++ ")"
  | index slot => "Index(" ++ Text.decimal slot.toNat ++ ")"
  | offset distance => "Offset(" ++ Text.signed distance.toInt ++ ")"

/-- An instruction of the code. Whether the operand suits the opcode is not part of the type. -/
structure Instruction where
  opcode : Opcode
  operand : Operand
  deriving DecidableEq

namespace OperandForm

/-- Reads an operand that starts at the given place of the code. -/
def read? (form : OperandForm) (code : Array UInt8) (start : Nat) : Option Operand :=
  match form with
  | absent => some .absent
  | immediate => do return .immediate (← code[start]?).toInt8.toInt32
  | shortIndex => do return .index (← code[start]?).toUInt16
  | index => do return .index (Binary.join16 (← code[start]?) (← code[start + 1]?))
  | offset => do return .offset (Binary.join16 (← code[start]?) (← code[start + 1]?)).toInt16

/-- The bytes of an operand that has this form, `none` for an operand that has not. -/
def write? : OperandForm → Operand → Option (List UInt8)
  | absent, .absent => some []
  | immediate, .immediate value =>
    if value.toInt8.toInt32 = value then some [value.toInt8.toUInt8] else none
  | shortIndex, .index slot => if slot.toUInt8.toUInt16 = slot then some [slot.toUInt8] else none
  | index, .index slot => some (Binary.bytes16 slot)
  | offset, .offset distance => some (Binary.bytes16 distance.toUInt16)
  | _, _ => none

end OperandForm

namespace Instruction

/-- Why there is no instruction at a place of the code. -/
inductive DecodeError where
  /-- The byte belongs to no instruction. -/
  | unsupported (byte : UInt8)
  /-- The place is outside the code, or the code ends inside the instruction. -/
  | truncated
  deriving DecidableEq

/-- The error in words. -/
def DecodeError.message : DecodeError → String
  | unsupported byte => "unsupported instruction 0x" ++ Text.hex 2 byte.toNat
  | truncated => "instruction runs past the end of the code array"

/-- The number of bytes the instruction takes in the code. -/
def length (instruction : Instruction) : Nat :=
  instruction.opcode.length

/-- The instruction at a place of the code. -/
def decode (code : Array UInt8) (pc : Nat) : Except DecodeError Instruction :=
  match code[pc]? with
  | none => .error .truncated
  | some byte =>
    match Opcode.ofByte? byte with
    | none => .error (.unsupported byte)
    | some opcode =>
      match opcode.form.read? code (pc + 1) with
      | none => .error .truncated
      | some operand => .ok { opcode, operand }

/-- The bytes of an instruction, `none` if its operand does not suit its opcode. -/
def encode? (instruction : Instruction) : Option (List UInt8) :=
  (instruction.opcode.form.write? instruction.operand).map (instruction.opcode.byte :: ·)

/-- The instruction in a trace: an index after a number sign, a distance always signed. -/
def text (instruction : Instruction) : String :=
  match instruction.operand with
  | .absent => instruction.opcode.mnemonic
  | .immediate value => instruction.opcode.mnemonic ++ " " ++ Text.signed value.toInt
  | .index slot => instruction.opcode.mnemonic ++ " #" ++ Text.decimal slot.toNat
  | .offset distance => instruction.opcode.mnemonic ++ " " ++ Text.withSign distance.toInt

end Instruction

end ClassMachine
