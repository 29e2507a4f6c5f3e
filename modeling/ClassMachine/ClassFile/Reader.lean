/-
Reading the items of a class file one after the other. A reader takes bytes from the front of what
is left and fails, at the place where the item starts, if too few are left.
-/
import ClassMachine.Binary.BigEndian
import ClassMachine.ClassFile.Error

namespace ClassMachine.ClassFile

/-- A place in the bytes: how many were read and which are left. -/
structure Cursor where
  offset : Nat
  rest : List UInt8
  deriving DecidableEq

/-- The place before the first byte. -/
def Cursor.start (bytes : List UInt8) : Cursor :=
  { offset := 0, rest := bytes }

/-- Takes something from the bytes at a place and moves on. -/
abbrev Reader (α : Type) : Type :=
  StateT Cursor (Except FormatError) α

namespace Reader

/-- A number of one byte. -/
def u8 (item : Item) : Reader UInt8 := fun cursor =>
  match cursor.rest with
  | a :: rest => .ok (a, { offset := cursor.offset + 1, rest })
  | _ => .error (.truncated item cursor.offset)

/-- A number of two bytes. -/
def u16 (item : Item) : Reader UInt16 := fun cursor =>
  match cursor.rest with
  | a :: b :: rest => .ok (Binary.join16 a b, { offset := cursor.offset + 2, rest })
  | _ => .error (.truncated item cursor.offset)

/-- A number of four bytes. -/
def u32 (item : Item) : Reader UInt32 := fun cursor =>
  match cursor.rest with
  | a :: b :: c :: d :: rest =>
    .ok (Binary.join32 a b c d, { offset := cursor.offset + 4, rest })
  | _ => .error (.truncated item cursor.offset)

/-- As many bytes as asked for. -/
def bytes (item : Item) (length : Nat) : Reader (List UInt8) := fun cursor =>
  let taken := cursor.rest.take length
  if taken.length = length then
    .ok (taken, { offset := cursor.offset + length, rest := cursor.rest.drop length })
  else
    .error (.truncated item cursor.offset)

/-- Reads the same thing `count` times and puts the results, in order, after those of `done`, which
are in reverse. -/
def timesAfter {α : Type} (reader : Reader α) (done : List α) : Nat → Reader (List α)
  | 0 => return done.reverse
  | count + 1 => do
    let value ← reader
    timesAfter reader (value :: done) count

/-- Reads the same thing `count` times. -/
def times {α : Type} (count : Nat) (reader : Reader α) : Reader (List α) :=
  timesAfter reader [] count

/-- Reads a two-byte count, then as many things as it says. -/
def counted {α : Type} (item : Item) (reader : Reader α) : Reader (List α) := do
  let count ← u16 item
  times count.toNat reader

end Reader

end ClassMachine.ClassFile
