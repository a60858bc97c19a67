import Honeycomb.Grid.Axial

/-!
# Rings

The places at a fixed distance from the origin, in the order of a walk around it: from one corner
along each of the six sides, as many steps as the ring's radius.
-/

set_option autoImplicit false

namespace Honeycomb.Axial

variable {κ : Type} [Add κ] [Mul κ] [IntCast κ]

/-- The first `steps` places from `a` on in a direction. -/
def side (d : Axial Int) : Nat → Axial κ → List (Axial κ)
  | 0, _ => []
  | steps + 1, a => a :: side d steps (a.step d)

def along (d : Axial Int) : Nat → Axial κ → Axial κ
  | 0, a => a
  | steps + 1, a => along d steps (a.step d)

/-- A walk of as many steps in every one of the directions. -/
def walk (steps : Nat) : List (Axial Int) → Axial κ → List (Axial κ)
  | [], _ => []
  | d :: ds, a => side d steps a ++ walk steps ds (along d steps a)

/-- The walk around the origin from the corner at some radius, so many steps a side. -/
def around (radius : κ) (steps : Nat) : List (Axial κ) :=
  walk steps directions (corner startDirection radius)

/-- The ring of grid places at a distance. -/
def ring (k : Nat) : List (Axial Int) := if k = 0 then [origin] else around (k : Int) k

open Float.Model in
/-- How many natural numbers lie below a float; none if it is not finite. -/
def stepsBelow (x : Float) : Nat :=
  match x.toModel.unpack with
  | .finite .positive m e _ =>
    let unit := Nat.pow 2 (-e).toNat
    (m * Nat.pow 2 e.toNat + unit - 1) / unit
  | _ => 0

/-- The ring at any radius: the origin at radius zero, a walk that takes a step on every side for
every natural number below the radius, and nothing below zero. -/
def ringAt (radius : Float) : List (Axial Float) :=
  if radius == 0 then [origin.cast] else around radius (stepsBelow radius)

end Honeycomb.Axial
