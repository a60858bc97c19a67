import Honeycomb.Grid.Ring
import Honeycomb.Decimal.Notation

/-!
# The spiral

Modules fill the grid ring by ring from the origin.  Within a ring the places furthest to the right
come first, and of those the ones nearest to the middle row; places that tie keep the order of the
walk.  The last ring is used as far as needed.
-/

set_option autoImplicit false

namespace Honeycomb.Spiral

/-- Whether one place of a ring comes before another or ties with it. -/
def inOrder (a b : Axial Int) : Bool := b.q < a.q || (a.q == b.q && a.r.natAbs ≤ b.r.natAbs)

/-- A ring in the order in which it fills. -/
def sortedRing (k : Nat) : List (Axial Int) := (Axial.ring k).mergeSort inOrder

/-- The next `missing` places outside the ring `k`. -/
def fill (missing k : Nat) : List (Axial Int) :=
  if missing = 0 then []
  else (sortedRing (k + 1)).take missing ++ fill (missing - 6 * (k + 1)) (k + 1)
termination_by missing

/-- The first `count` places of the spiral. -/
def positions (count : Nat) : List (Axial Int) :=
  match count with
  | 0 => []
  | missing + 1 => Axial.origin :: fill missing 0

inductive CountError
  | notPositiveInteger (count : Float)
deriving DecidableEq

def CountError.message : CountError → Text
  | .notPositiveInteger count =>
    "position count must be a positive integer (got " ++ numberText count ++ ")"

open Float.Model in
/-- The natural number that a float is, if it is one above zero. -/
def positiveInteger? (x : Float) : Option Nat :=
  match x.toModel.unpack with
  | .finite .positive m e _ =>
    let unit := Nat.pow 2 (-e).toNat
    let n := m * Nat.pow 2 e.toNat
    if n % unit = 0 then some (n / unit) else none
  | _ => none

def positionsOfCount (count : Float) : Except CountError (List (Axial Int)) :=
  match positiveInteger? count with
  | some n => .ok (positions n)
  | none => .error (.notPositiveInteger count)

end Honeycomb.Spiral
