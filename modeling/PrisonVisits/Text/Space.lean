/-! White space and blank text. The class is the Unicode property White_Space, which is wider than
ASCII: a name of no-break spaces is blank, a name of zero-width spaces is not. Lengths of stored
text are counted in UTF-8 bytes. -/

namespace PrisonVisits.Text

/-- The code points of White_Space, as closed ranges in ascending order. -/
def spaceRanges : List (Nat × Nat) :=
  [(0x0009, 0x000D), (0x0020, 0x0020), (0x0085, 0x0085), (0x00A0, 0x00A0), (0x1680, 0x1680),
   (0x2000, 0x200A), (0x2028, 0x2029), (0x202F, 0x202F), (0x205F, 0x205F), (0x3000, 0x3000)]

def isSpace (c : Char) : Bool :=
  spaceRanges.any fun range => range.1 ≤ c.toNat && c.toNat ≤ range.2

/-- Blank text is empty once the white space around it is gone. -/
def isBlank (s : String) : Bool := s.toList.all isSpace

def skipSpace (cs : List Char) : List Char := cs.dropWhile isSpace

/-- The text without the white space at its two ends. -/
def trim (cs : List Char) : List Char := (skipSpace (skipSpace cs).reverse).reverse

/-- The length that limits speak of: the number of UTF-8 bytes. -/
def byteLength (s : String) : Nat := s.utf8ByteSize

end PrisonVisits.Text
