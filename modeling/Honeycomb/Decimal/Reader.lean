import Honeycomb.Decimal.Digits

/-!
# Reading decimals

A decimal literal becomes the nearest float.  `nearestFloat c e` is the float nearest to
`c * 10 ^ e`; it looks at the size of the number first, so that an exponent of any length costs
nothing.
-/

set_option autoImplicit false

namespace Honeycomb

def infinity : Float := 1.0 / 0.0

def notANumber : Float := 0.0 / 0.0

/-- A power of ten that a natural number reaches: `59 / 196` is just below the decimal logarithm of
two. -/
def leastPlaces (c : Nat) : Nat := c.log2 * 59 / 196

/-- A power of ten that a natural number does not reach: `28 / 93` is just above the decimal
logarithm of two. -/
def mostPlaces (c : Nat) : Nat := (c.log2 + 1) * 28 / 93 + 1

/-- The float nearest to `c * 10 ^ e`.  Well beyond the greatest float every number is infinite, and
well below the least one every number is zero. -/
def nearestFloat (c : Nat) (e : Int) : Float :=
  if c = 0 then 0
  else if 400 < leastPlaces c + e then infinity
  else if mostPlaces c + e < -400 then 0
  else Float.ofScientific c (e < 0) e.natAbs

/-- The float nearest to the decimal with the given digits before and after the point and the
given power of ten. -/
def floatOfParts (whole fraction : List UInt16) (exponent : Int) : Float :=
  nearestFloat (Digits.toNat (whole ++ fraction)) (exponent - fraction.length)

end Honeycomb
