import Honeycomb.Text.Letters
import Honeycomb.Text.Utf8

/-!
# Percent encoding

A text as one segment of a path: letters, digits and a few marks stand for themselves, every other
character is written as its UTF-8 bytes, a `%` and two hexadecimal digits each.  A text with a lone
surrogate cannot be written so.
-/

set_option autoImplicit false

namespace Honeycomb.Text.Percent

/-- Whether a character stands for itself in a segment. -/
def isPlain (c : Char) : Bool :=
  c.isAlphanum || "-_.!~*'()".toList.contains c

def hexDigit (n : Nat) : Char := if n < 10 then Char.ofNat (48 + n) else Char.ofNat (55 + n)

def triple (b : Nat) : List Char := ['%', hexDigit (b / 16), hexDigit (b % 16)]

def encodeChar (c : Char) : List Char :=
  if isPlain c then [c] else (Utf8.encodeChar c).flatMap triple

def encode (cs : List Char) : List Char := cs.flatMap encodeChar

/-- A text as a segment. -/
def segment? (t : Text) : Option Text := t.chars?.map fun cs => ofChars (encode cs)

end Honeycomb.Text.Percent
