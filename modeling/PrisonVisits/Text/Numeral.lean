import PrisonVisits.Text.Space

/-! Decimal numerals. Fixed-width numerals make up dates and times; signed and unsigned ones make up
settings. Only the ASCII digits count as digits. -/

namespace PrisonVisits.Text

def digits (n : Nat) : List Char := Nat.toDigits 10 n

/-- The decimal digits of a number, filled up with zeros on the left to the given width. -/
def padded (width n : Nat) : List Char :=
  List.replicate (width - (digits n).length) '0' ++ digits n

def ofDigits (ds : List Char) : Nat := Nat.ofDigitChars 10 ds 0

/-- Reads the longest numeral at the front that has at most the given number of digits. At least
one digit must stand there. -/
def readNumeral (atMost : Nat) (cs : List Char) : Option (Nat × List Char) :=
  let ds := (cs.take atMost).takeWhile Char.isDigit
  if ds.isEmpty then none else some (ofDigits ds, cs.drop ds.length)

/-- Reads one given character. -/
def readChar (c : Char) : List Char → Option (List Char)
  | [] => none
  | d :: rest => if d = c then some rest else none

/-- A whole text of digits, as a number. -/
def natural? (cs : List Char) : Option Nat :=
  if !cs.isEmpty && cs.all Char.isDigit then some (ofDigits cs) else none

/-- An unsigned numeral, a plus sign allowed in front of it. -/
def unsigned? : List Char → Option Nat
  | '+' :: cs => natural? cs
  | cs => natural? cs

/-- A signed numeral; a sign needs digits behind it. -/
def signed? : List Char → Option Int
  | '-' :: cs => (natural? cs).map fun n => -(n : Int)
  | cs => (unsigned? cs).map fun n => (n : Int)

end PrisonVisits.Text
