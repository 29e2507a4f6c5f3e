/-
Text as a sequence of 16-bit units. A character below `0x10000` is one unit; a supplementary
character is a pair, a high surrogate followed by a low one. A surrogate outside such a pair
stands for no character, so not every sequence of units is a text.
-/
namespace ClassMachine.Text

/-- First half of a pair. -/
def isHighSurrogate (unit : UInt16) : Bool :=
  0xD800 ≤ unit && unit < 0xDC00

/-- Second half of a pair. -/
def isLowSurrogate (unit : UInt16) : Bool :=
  0xDC00 ≤ unit && unit < 0xE000

/-- The character a pair of surrogates stands for. -/
def pairChar (high low : UInt16) : Char :=
  Char.ofNat (0x10000 + (high.toNat - 0xD800) * 0x400 + (low.toNat - 0xDC00))

/-- The units of one character. -/
def unitsOfChar (c : Char) : List UInt16 :=
  if c.toNat < 0x10000 then
    [UInt16.ofNat c.toNat]
  else
    [UInt16.ofNat (0xD800 + (c.toNat - 0x10000) / 0x400),
      UInt16.ofNat (0xDC00 + (c.toNat - 0x10000) % 0x400)]

/-- The units of a text, character by character. -/
def units (text : String) : List UInt16 :=
  text.toList.flatMap unitsOfChar

/-- The characters a sequence of units stands for, if every surrogate in it belongs to a pair. -/
def charsOfUnits? : List UInt16 → Option (List Char)
  | [] => some []
  | unit :: rest =>
    if isHighSurrogate unit then
      match rest with
      | low :: rest =>
        if isLowSurrogate low then (charsOfUnits? rest).map (pairChar unit low :: ·) else none
      | [] => none
    else if isLowSurrogate unit then
      none
    else
      (charsOfUnits? rest).map (Char.ofNat unit.toNat :: ·)

/-- The text a sequence of units stands for, if there is one. -/
def ofUnits? (units : List UInt16) : Option String :=
  (charsOfUnits? units).map String.ofList

end ClassMachine.Text
