import Honeycomb.Grid.Projection

/-!
# The box around hexagons

`Bounds.ofHexagons` is the least box around hexagons of one size: each hexagon reaches half its
width to either side of its centre, and its size above and below.
-/

set_option autoImplicit false

namespace Honeycomb

/-- A box with sides parallel to the page's. -/
structure Bounds (α : Type) where
  minX : α
  minY : α
  maxX : α
  maxY : α
deriving DecidableEq, Repr

namespace Bounds

variable {α : Type} [Scalar α]

def empty : Bounds α := ⟨Scalar.emptyLow, Scalar.emptyLow, Scalar.emptyHigh, Scalar.emptyHigh⟩

def halfWidth (size : α) : α := Scalar.sqrtThree * size / Scalar.ofInt 2

/-- The box around the hexagon of a size at a centre. -/
def ofHexagon (size : α) (c : Point α) : Bounds α :=
  { minX := c.x - halfWidth size
    minY := c.y - size
    maxX := c.x + halfWidth size
    maxY := c.y + size }

def union (a b : Bounds α) : Bounds α :=
  { minX := min a.minX b.minX
    minY := min a.minY b.minY
    maxX := max a.maxX b.maxX
    maxY := max a.maxY b.maxY }

def ofHexagons (size : α) : List (Point α) → Bounds α
  | [] => empty
  | c :: cs => cs.foldl (fun box c => box.union (ofHexagon size c)) (ofHexagon size c)

def width (b : Bounds α) : α := b.maxX - b.minX

def height (b : Bounds α) : α := b.maxY - b.minY

end Bounds

end Honeycomb
