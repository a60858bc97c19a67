import Honeycomb.Grid.Axial

/-!
# From the grid to the page

Hexagons stand on a corner.  Their centres keep a little more room than the hexagons need.
-/

set_option autoImplicit false

namespace Honeycomb

/-- A point of a page; `y` grows downwards. -/
structure Point (α : Type) where
  x : α
  y : α
deriving DecidableEq, Repr

variable {α : Type} [Scalar α]

/-- The share of a hexagon's size that is left between neighbours. -/
def gapFraction : α := Scalar.ratio 18 100

/-- The centre of the hexagon at a place, for a size of hexagons and a share of room between them.
-/
def Axial.projectWith (gap size : α) (c : Axial α) : Point α :=
  let spacing := size * (Scalar.ofInt 1 + gap)
  { x := spacing * Scalar.sqrtThree * (c.q + c.r / Scalar.ofInt 2)
    y := spacing * Scalar.ratio 3 2 * c.r }

def Axial.project (size : α) (c : Axial α) : Point α := c.projectWith gapFraction size

end Honeycomb
