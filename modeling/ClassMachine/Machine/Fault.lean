/-
Why execution fails, and where. A fault is the cause by itself; a failure is a fault with the place
in the program where it arose, as far as that is known.
-/
import ClassMachine.ClassFile.Basic
import ClassMachine.Descriptor
import ClassMachine.Instruction.Basic

namespace ClassMachine

/-- Why execution cannot go on. -/
inductive Fault where
  /-- The index of a call leads to no method reference. -/
  | unresolved (error : ResolveError)
  | noClass (name : String)
  | noMethod (target : MemberRef)
  | badDescriptor (error : DescriptorError)
  /-- The method to run has no code. -/
  | noCode (error : CodeError)
  /-- There is no instruction at the place reached. -/
  | noInstruction (error : Instruction.DecodeError)
  /-- The operand is not one that the instruction with this byte takes. -/
  | badOperand (opcode : UInt8) (operand : Operand)
  | stackUnderflow
  | noLocal (index size : Nat)
  | branchOutside (target : Int)
  | instructionLimit (limit : Nat)
  | callDepthLimit (limit : Nat)
  | deadline
  deriving DecidableEq

namespace Fault

/-- The fault in words. -/
def message : Fault → String
  | unresolved error => error.message
  | noClass name => "class " ++ name ++ " not found"
  | noMethod target => "method " ++ target.text ++ " not found"
  | badDescriptor error => error.message
  | noCode error => error.message
  | noInstruction error => error.message
  | badOperand opcode operand =>
    "operand " ++ operand.description ++ " does not fit opcode 0x" ++ Text.hex 2 opcode.toNat
  | stackUnderflow => "operand stack underflow"
  | noLocal index size =>
    "local variable slot " ++ Text.decimal index ++ " out of range (" ++ Text.decimal size
      ++ " slots)"
  | branchOutside target =>
    "branch target " ++ Text.signed target ++ " is outside the code array"
  | instructionLimit limit => "instruction budget of " ++ Text.decimal limit ++ " exhausted"
  | callDepthLimit limit => "call depth limit of " ++ Text.decimal limit ++ " exceeded"
  | deadline => "execution deadline exceeded"

/-- What lies behind the fault, in words, where the fault is that code is malformed. -/
def cause? : Fault → Option String
  | noCode (.malformed error) => some error.message
  | _ => none

end Fault

/-- A method by the names of its class, of itself and of its descriptor. -/
structure Site where
  className : String
  method : String
  descriptor : String
  deriving DecidableEq

/-- The names of a method, with stand-ins for those that cannot be looked up. -/
def ClassFile.site (classFile : ClassFile) (method : Member) : Site where
  className := classFile.name.toOption.getD "<unknown>"
  method := (method.name classFile.pool).toOption.getD "<unknown>"
  descriptor := (method.descriptor classFile.pool).toOption.getD ""

/-- A method without its descriptor, as written in traces. -/
def Site.text (site : Site) : String :=
  site.className ++ "." ++ site.method

/-- A place in the code of a method and the byte that stands there. -/
structure Location where
  site : Site
  pc : Nat
  opcode : Option UInt8
  deriving DecidableEq

/-- The start of a method, whose code may not be known. -/
def Location.entry (site : Site) : Location :=
  { site, pc := 0, opcode := none }

/-- The place in words; the byte is named if it is an instruction's. -/
def Location.text (location : Location) : String :=
  let place := location.site.text ++ location.site.descriptor ++ " at pc "
    ++ Text.decimal location.pc
  match location.opcode with
  | none => place
  | some byte =>
    match Opcode.ofByte? byte with
    | some opcode => place ++ " (" ++ opcode.mnemonic ++ ", 0x" ++ Text.hex 2 byte.toNat ++ ")"
    | none => place ++ " (0x" ++ Text.hex 2 byte.toNat ++ ")"

/-- A fault and where it arose. -/
structure Failure where
  fault : Fault
  location : Option Location
  deriving DecidableEq

namespace Failure

/-- A fault whose place is not known yet. -/
def ofFault (fault : Fault) : Failure :=
  { fault, location := none }

/-- Adds the place of a failure; a place that is known already is kept, as it is the closer one. -/
def locate (failure : Failure) (location : Location) : Failure :=
  { failure with location := some (failure.location.getD location) }

/-- The failure in words. -/
def message (failure : Failure) : String :=
  match failure.location with
  | some location => failure.fault.message ++ " in " ++ location.text
  | none => failure.fault.message

end Failure

end ClassMachine
