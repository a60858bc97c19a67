import Honeycomb.Text.Basic

/-!
# Reading UTF-8

Bytes become characters one at a time.  Every longest start of a character that does not go on as
it should becomes one replacement character, and the byte that broke it off is looked at afresh.  A
byte order mark is kept.
-/

set_option autoImplicit false

namespace Honeycomb.Text.Utf8

/-- A character begun: what its bytes say so far, how many are still to come, and the range of the
next one. -/
structure Begun where
  code : Nat
  owed : Nat
  least : Nat := 0x80
  greatest : Nat := 0xBF
deriving Repr, DecidableEq

/-- What a first byte starts: a whole character, a longer one, or nothing. -/
inductive Start
  | whole (c : Char)
  | longer (b : Begun)
  | wrong

def start (b : Nat) : Start :=
  if b < 0x80 then .whole (Char.ofNat b)
  else if b < 0xC2 then .wrong
  else if b < 0xE0 then .longer { code := b - 0xC0, owed := 1 }
  else if b = 0xE0 then .longer { code := 0, owed := 2, least := 0xA0 }
  else if b = 0xED then .longer { code := 0xD, owed := 2, greatest := 0x9F }
  else if b < 0xF0 then .longer { code := b - 0xE0, owed := 2 }
  else if b = 0xF0 then .longer { code := 0, owed := 3, least := 0x90 }
  else if b < 0xF4 then .longer { code := b - 0xF0, owed := 3 }
  else if b = 0xF4 then .longer { code := 4, owed := 3, greatest := 0x8F }
  else .wrong

/-- The characters that a byte sequence stands for, with a character perhaps begun already. -/
def decodeFrom : Option Begun → List Nat → List Char
  | none, [] => []
  | some _, [] => [replacement]
  | begun, b :: rest =>
    let afresh (_ : Unit) : List Char :=
      match start b with
      | .whole c => c :: decodeFrom none rest
      | .longer s => decodeFrom (some s) rest
      | .wrong => replacement :: decodeFrom none rest
    match begun with
    | none => afresh ()
    | some s =>
      if s.least ≤ b ∧ b ≤ s.greatest then
        let code := s.code * 64 + (b - 0x80)
        if s.owed ≤ 1 then Char.ofNat code :: decodeFrom none rest
        else decodeFrom (some { code, owed := s.owed - 1 }) rest
      else replacement :: afresh ()

def decode (bytes : List Nat) : List Char := decodeFrom none bytes

def encodeChar (c : Char) : List Nat :=
  let n := c.toNat
  if n < 0x80 then [n]
  else if n < 0x800 then [0xC0 + n / 0x40, 0x80 + n % 0x40]
  else if n < 0x10000 then [0xE0 + n / 0x1000, 0x80 + n / 0x40 % 0x40, 0x80 + n % 0x40]
  else [0xF0 + n / 0x40000, 0x80 + n / 0x1000 % 0x40, 0x80 + n / 0x40 % 0x40, 0x80 + n % 0x40]

def encode (cs : List Char) : List Nat := cs.flatMap encodeChar

end Honeycomb.Text.Utf8
