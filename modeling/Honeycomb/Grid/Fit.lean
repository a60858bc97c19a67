import Honeycomb.Grid.Bounds

/-!
# Choosing the size of the hexagons

The sizes go down from the largest to the smallest in even steps; the first one at which everything
fits with its padding is taken, and the smallest one if none does.
-/

set_option autoImplicit false

namespace Honeycomb

/-- The size of a drawing surface. -/
structure Viewport (α : Type) where
  width : α
  height : α
deriving DecidableEq, Repr

namespace HexSize

def largest : Int := 56

def smallest : Int := 18

def stepDown : Int := 2

def candidates : List Int :=
  (List.range ((largest - smallest) / stepDown + 1).toNat).map fun (i : Nat) =>
    largest - stepDown * i

def defaultPadding : Int := 80

variable {α : Type} [Scalar α] [DecidableLE α]

/-- Whether the hexagons at the given places fit into a surface with their padding. -/
def fits (places : List (Axial α)) (surface : Viewport α) (padding size : α) : Bool :=
  let box := Bounds.ofHexagons size (places.map (Axial.project size))
  decide (box.width + padding * Scalar.ofInt 2 ≤ surface.width) &&
    decide (box.height + padding * Scalar.ofInt 2 ≤ surface.height)

/-- The largest size that fits, or else the smallest one. -/
def choose (places : List (Axial α)) (surface : Viewport α) (padding : α) : α :=
  match (candidates.map Scalar.ofInt).find? (fits places surface padding) with
  | some size => size
  | none => Scalar.ofInt smallest

end HexSize

end Honeycomb
