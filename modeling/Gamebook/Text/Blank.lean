/-!
# Blank characters and trimming

Which characters count as blank, and `strip`, which removes blank characters from both ends of
a text.  The set is the Unicode white space together with the four information separators
U+001C to U+001F; the zero width space U+200B and the byte order mark U+FEFF are not in it.
-/

namespace Gamebook.Text

/-- The code points of the blank characters. -/
def blankCodes : List Nat :=
  [0x09, 0x0A, 0x0B, 0x0C, 0x0D, 0x1C, 0x1D, 0x1E, 0x1F, 0x20, 0x85, 0xA0, 0x1680,
   0x2000, 0x2001, 0x2002, 0x2003, 0x2004, 0x2005, 0x2006, 0x2007, 0x2008, 0x2009, 0x200A,
   0x2028, 0x2029, 0x202F, 0x205F, 0x3000]

/-- The blank characters. -/
def isBlank (c : Char) : Bool :=
  blankCodes.contains c.toNat

/-- The Unicode white space: the blank characters without the information separators. -/
def isSpace (c : Char) : Bool :=
  isBlank c && !(0x1C ≤ c.toNat && c.toNat ≤ 0x1F)

/-- Removes the characters of a class from both ends. -/
def trim (p : Char → Bool) (cs : List Char) : List Char :=
  ((cs.dropWhile p).reverse.dropWhile p).reverse

/-- Removes the blank characters at both ends. -/
def strip (cs : List Char) : List Char :=
  trim isBlank cs

end Gamebook.Text
