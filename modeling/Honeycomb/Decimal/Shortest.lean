import Honeycomb.Decimal.Digits

/-!
# Shortest decimals

The fewest decimal digits that single a float out among all floats.

A finite float stands for every real that rounds to it: an interval from halfway to the float
below to halfway to the float above, whose ends belong to it exactly when its significand is even.
`shortest` walks decimal grids from coarse to fine and stops at the first grid with a point in that
interval; of two such points it takes the nearer one, and the even one when both are equally near.
All comparisons are exact.
-/

set_option autoImplicit false

namespace Honeycomb

/-- A positive decimal fraction, `coefficient * 10 ^ exponent`. -/
structure Decimal where
  coefficient : Nat
  exponent : Int
deriving DecidableEq, Repr

/-- A positive binary fraction, `significand * 2 ^ exponent`. -/
structure Binary where
  significand : Nat
  exponent : Int
deriving DecidableEq, Repr

namespace Binary

/-- The least exponent that a float has; below it the gaps between floats shrink no more. -/
def leastExponent : Int := -1074

/-- Whether the float below is only half as far away as the float above. -/
def narrowBelow (b : Binary) : Bool := b.significand == Nat.pow 2 52 && leastExponent < b.exponent

/-- The lower end of the interval of reals that round to `b`, in quarters of its last place. -/
def lowQuarters (b : Binary) : Nat :=
  if b.narrowBelow then 4 * b.significand - 1 else 4 * b.significand - 2

def highQuarters (b : Binary) : Nat := 4 * b.significand + 2

/-- Compares `c * 10 ^ i` with `n` quarters of the last place of `b`. -/
def compareQuarters (b : Binary) (c : Nat) (i : Int) (n : Nat) : Ordering :=
  let j := b.exponent - 2
  compare (c * Nat.pow 10 i.toNat * Nat.pow 2 (-j).toNat)
    (n * Nat.pow 2 j.toNat * Nat.pow 10 (-i).toNat)

/-- Whether `c * 10 ^ i` rounds to `b`. -/
def attracts (b : Binary) (c : Nat) (i : Int) : Bool :=
  let low := b.compareQuarters c i b.lowQuarters
  let high := b.compareQuarters c i b.highQuarters
  let closed := b.significand % 2 == 0
  (low == .gt || (closed && low == .eq)) && (high == .lt || (closed && high == .eq))

/-- The greatest multiple of `10 ^ i` that is not above `b`, counted in units of `10 ^ i`. -/
def floorOn (b : Binary) (i : Int) : Nat :=
  (b.significand * Nat.pow 2 b.exponent.toNat * Nat.pow 10 (-i).toNat) /
    (Nat.pow 10 i.toNat * Nat.pow 2 (-b.exponent).toNat)

/-- The point of the grid `10 ^ i` that rounds to `b` and lies nearest to it, if there is one. -/
def nearestOn (b : Binary) (i : Int) : Option Nat :=
  let below := b.floorOn i
  let above := below + 1
  match b.attracts below i, b.attracts above i with
  | true, false => some below
  | false, true => some above
  | false, false => none
  | true, true =>
    -- Twice the value against the sum of the two neighbours.
    match b.compareQuarters (below + above) i (8 * b.significand) with
    | .gt => some below
    | .lt => some above
    | .eq => if below % 2 == 0 then some below else some above

/-- A power of ten that no real rounding to `b` reaches, so that no coarser grid has a point there.
-/
def coarsest (b : Binary) : Int :=
  let bits : Int := b.significand.log2 + 1 + b.exponent
  -- 30103 / 100000 is just above the decimal logarithm of two.
  1 - Int.fdiv (-(bits * 30103)) 100000

/-- Tries the grids from `10 ^ i` downwards. -/
def searchFrom (b : Binary) : Nat → Int → Decimal
  | 0, i => ⟨b.floorOn i, i⟩
  | tries + 1, i =>
    match b.nearestOn i with
    | some c => ⟨c, i⟩
    | none => searchFrom b tries (i - 1)

/-- The shortest decimal that rounds to `b`; seventeen digits always suffice. -/
def shortest (b : Binary) : Decimal := b.searchFrom 24 b.coarsest

end Binary

end Honeycomb
