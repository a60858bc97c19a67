import Honeycomb.Text.Basic

/-!
# Decimal digits

Numerals in base ten as sequences of units, and back.

* `Digits.ofNat n` is the numeral of `n`, without leading zeros.
* `Digits.toNat` is the value of a sequence of digits, whatever zeros lead it.
-/

set_option autoImplicit false

namespace Honeycomb.Digits

def digit (d : Nat) : UInt16 := .ofNat (48 + d)

/-- Whether a unit is one of `0` to `9`; no other script's digits count. -/
def isDigit (u : UInt16) : Bool := 48 ≤ u && u ≤ 57

def value (u : UInt16) : Nat := u.toNat - 48

/-- The numeral of a number, most significant digit first. -/
def ofNat (n : Nat) : List UInt16 :=
  if n < 10 then [digit n] else ofNat (n / 10) ++ [digit (n % 10)]

def text (n : Nat) : Text := ⟨ofNat n⟩

/-- The number that a sequence of digits spells in base ten. -/
def toNat (us : List UInt16) : Nat := us.foldl (fun n u => 10 * n + value u) 0

def take (us : List UInt16) : List UInt16 × List UInt16 :=
  (us.takeWhile isDigit, us.dropWhile isDigit)

end Honeycomb.Digits
