/-!
# Blanks

The characters that count as space around a value: the ASCII blanks, the no-break space, the byte
order mark, the line and paragraph separators, and every character of the Unicode category of
space separators.  Each of them is one unit.
-/

set_option autoImplicit false

namespace Honeycomb.Text

/-- The units of the blank characters, in ascending order. -/
def blanks : List UInt16 :=
  [0x09, 0x0A, 0x0B, 0x0C, 0x0D, 0x20, 0xA0, 0x1680,
   0x2000, 0x2001, 0x2002, 0x2003, 0x2004, 0x2005, 0x2006, 0x2007, 0x2008, 0x2009, 0x200A,
   0x2028, 0x2029, 0x202F, 0x205F, 0x3000, 0xFEFF]

def isBlank (u : UInt16) : Bool := blanks.contains u

def trimLeft (us : List UInt16) : List UInt16 := us.dropWhile isBlank

def trimRight (us : List UInt16) : List UInt16 := (us.reverse.dropWhile isBlank).reverse

def trim (us : List UInt16) : List UInt16 := trimRight (trimLeft us)

end Honeycomb.Text
