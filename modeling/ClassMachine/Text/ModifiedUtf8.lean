/-
Modified UTF-8, the spelling of texts in a class file. Every 16-bit unit is written by itself on
one, two or three bytes, so a supplementary character takes six; the zero unit is written on two
bytes, so no byte of a text is zero. The reader takes any unit in the two- and three-byte forms,
also one that a shorter form could hold; the writer always chooses the shortest.
-/
import ClassMachine.Text.Units

namespace ClassMachine.Text.ModifiedUtf8

/-- How many bytes a unit takes, as its first byte tells. -/
inductive Form where
  | one
  | two
  | three
  deriving DecidableEq

/-- The form a first byte announces; a zero byte, a continuation byte and the bytes from `F0` on
announce none. -/
def Form.ofLead? (lead : UInt8) : Option Form :=
  if 0x01 ≤ lead && lead ≤ 0x7F then some .one
  else if 0xC0 ≤ lead && lead ≤ 0xDF then some .two
  else if 0xE0 ≤ lead && lead ≤ 0xEF then some .three
  else none

/-- A byte after the first: its two leading bits are `10`. -/
def isContinuation (byte : UInt8) : Bool :=
  0x80 ≤ byte && byte ≤ 0xBF

/-- The unit of a two-byte form: five bits of the first byte, six of the second. -/
def unitOfTwo (lead low : UInt8) : UInt16 :=
  UInt16.ofNat (lead.toNat % 0x20 * 0x40 + low.toNat % 0x40)

/-- The unit of a three-byte form: four bits of the first byte, six of each other. -/
def unitOfThree (lead middle low : UInt8) : UInt16 :=
  UInt16.ofNat (lead.toNat % 0x10 * 0x1000 + middle.toNat % 0x40 * 0x40 + low.toNat % 0x40)

/-- Splits bytes into forms and gives their units, if the bytes are such a sequence. -/
def unitsOfBytes? : List UInt8 → Option (List UInt16)
  | [] => some []
  | lead :: rest =>
    match Form.ofLead? lead, rest with
    | some .one, rest => (unitsOfBytes? rest).map (lead.toUInt16 :: ·)
    | some .two, low :: rest =>
      if isContinuation low then (unitsOfBytes? rest).map (unitOfTwo lead low :: ·) else none
    | some .three, middle :: low :: rest =>
      if isContinuation middle && isContinuation low then
        (unitsOfBytes? rest).map (unitOfThree lead middle low :: ·)
      else
        none
    | _, _ => none

/-- The text that bytes spell, if they spell one. -/
def decode? (bytes : List UInt8) : Option String :=
  (unitsOfBytes? bytes).bind ofUnits?

/-- The shortest form of a unit, two bytes for zero. -/
def bytesOfUnit (unit : UInt16) : List UInt8 :=
  let n := unit.toNat
  if 0x01 ≤ n ∧ n ≤ 0x7F then
    [UInt8.ofNat n]
  else if n ≤ 0x7FF then
    [UInt8.ofNat (0xC0 + n / 0x40), UInt8.ofNat (0x80 + n % 0x40)]
  else
    [UInt8.ofNat (0xE0 + n / 0x1000), UInt8.ofNat (0x80 + n / 0x40 % 0x40),
      UInt8.ofNat (0x80 + n % 0x40)]

/-- The spelling of a text, each unit in its shortest form. -/
def encode (text : String) : List UInt8 :=
  (units text).flatMap bytesOfUnit

end ClassMachine.Text.ModifiedUtf8
