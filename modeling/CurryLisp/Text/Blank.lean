/-!
# White space

`isBlank` is the Unicode property `White_Space`; `isGap` is the part of it that separates tokens in
source text: space, tab, line feed and carriage return.
-/

namespace CurryLisp.Text

/-- Code points with the property `White_Space`. -/
def blankCodes : List Nat :=
  [0x09, 0x0A, 0x0B, 0x0C, 0x0D, 0x20, 0x85, 0xA0, 0x1680, 0x2000, 0x2001, 0x2002, 0x2003, 0x2004,
   0x2005, 0x2006, 0x2007, 0x2008, 0x2009, 0x200A, 0x2028, 0x2029, 0x202F, 0x205F, 0x3000]

/-- A character with the property `White_Space`. -/
def isBlank (c : Char) : Bool := blankCodes.contains c.toNat

/-- The white space that separates tokens. -/
def isGap (c : Char) : Bool := c = ' ' || c = '\t' || c = '\n' || c = '\r'

/-- `cs` without the white space at its end. -/
def trimEnd (cs : List Char) : List Char := (cs.reverse.dropWhile isBlank).reverse

end CurryLisp.Text
