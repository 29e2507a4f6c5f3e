/-
Text of fixed shape: numbers in decimal and hexadecimal, columns padded with blanks, and lists in
square brackets. Every message and trace line of the library is built from these.
-/
namespace ClassMachine.Text

/-- The decimal digits of a number. -/
def decimal (n : Nat) : String :=
  String.ofList (Nat.toDigits 10 n)

/-- The decimal digits of an integer, after a minus sign if it is negative. -/
def signed (n : Int) : String :=
  if n < 0 then "-" ++ decimal n.natAbs else decimal n.natAbs

/-- The decimal digits of an integer after its sign, which zero has too. -/
def withSign (n : Int) : String :=
  if n < 0 then signed n else "+" ++ signed n

/-- The number in lower-case hexadecimal, led by zeros up to `width` digits. -/
def hex (width n : Nat) : String :=
  let digits := Nat.toDigits 16 n
  String.ofList (List.replicate (width - digits.length) '0' ++ digits)

/-- As many blanks as asked for. -/
def blanks (n : Nat) : String :=
  String.ofList (List.replicate n ' ')

/-- The text at the left of a column of `width` characters; a longer text is kept whole. -/
def padRight (width : Nat) (text : String) : String :=
  text ++ blanks (width - text.length)

@[simp] theorem length_blanks (n : Nat) : (blanks n).length = n := by
  simp [blanks]

@[simp] theorem length_padRight (width : Nat) (text : String) :
    (padRight width text).length = max width text.length := by
  rw [padRight, String.length_append, length_blanks]
  omega

/-- The values in order, divided by a comma and a blank, in square brackets. -/
def bracketed (values : List Int32) : String :=
  "[" ++ ", ".intercalate (values.map fun value => signed value.toInt) ++ "]"

end ClassMachine.Text
