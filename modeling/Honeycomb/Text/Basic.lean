/-!
# Texts

A text is a sequence of sixteen-bit units.  A character of the basic plane is one unit, any other is
a pair of surrogates.  Nothing keeps a text from holding a surrogate outside of a pair; such a text
is no sequence of characters, and it is a text all the same.

* `Text.ofString` is the text of some characters; a string stands for it wherever a text is meant.
* `Text.oneLine` takes the ends of lines out of a text.
* `Text.join` and `Text.intercalate` put texts together, unit by unit.
-/

set_option autoImplicit false

namespace Honeycomb

/-- A sequence of sixteen-bit units. -/
@[ext] structure Text where
  units : List UInt16
deriving DecidableEq, Repr

namespace Text

def replacement : Char := Char.ofNat 0xFFFD

/-- The unit of a character of the basic plane. -/
def unit (c : Char) : UInt16 := .ofNat c.toNat

def unitsOfChar (c : Char) : List UInt16 :=
  let n := c.toNat
  if n < 0x10000 then [.ofNat n]
  else [.ofNat (0xD800 + (n - 0x10000) / 0x400), .ofNat (0xDC00 + (n - 0x10000) % 0x400)]

def ofChars (cs : List Char) : Text := ⟨cs.flatMap unitsOfChar⟩

def ofString (s : String) : Text := ofChars s.toList

instance : Coe String Text := ⟨ofString⟩

def unitsOf (s : String) : List UInt16 := (ofString s).units

/-- What follows a start that the units must have. -/
def dropStart? : List UInt16 → List UInt16 → Option (List UInt16)
  | [], us => some us
  | s :: start, u :: us => if s = u then dropStart? start us else none
  | _ :: _, [] => none

def append (s t : Text) : Text := ⟨s.units ++ t.units⟩

instance : Append Text := ⟨append⟩

def isBreak (u : UInt16) : Bool := u == unit '\n' || u == unit '\r'

/-- The text without the ends of its lines. -/
def oneLine (t : Text) : Text := ⟨t.units.filter (!isBreak ·)⟩

def join (ts : List Text) : Text := ⟨ts.flatMap units⟩

/-- Texts one after the other with a text between any two of them. -/
def intercalate (between : Text) (ts : List Text) : Text :=
  ⟨between.units.intercalate (ts.map units)⟩

end Text

end Honeycomb
