import Honeycomb.Grid.Projection
import Honeycomb.Grid.Fit
import Honeycomb.Decimal.Rounding

/-!
# Drawing a hexagon

A hexagon stands on a corner: its first corner is on the right, above the middle, and the others
follow clockwise.
-/

set_option autoImplicit false

namespace Honeycomb.Hexagon

/-- The corners of the hexagon with circumradius one around the origin.  The angles are multiples of
a sixth of a turn as far as floats hold them, so a corner that ought to lie on an axis may miss it
by the last bit. -/
def unitCorners : List (Point Float) :=
  [⟨0.8660254037844387, -0.49999999999999994⟩,
   ⟨0.8660254037844387, 0.49999999999999994⟩,
   ⟨6.123233995736766e-17, 1.0⟩,
   ⟨-0.8660254037844387, 0.49999999999999994⟩,
   ⟨-0.8660254037844388, -0.4999999999999997⟩,
   ⟨-1.0718754395722282e-15, -1.0⟩]

def corners (center : Point Float) (size : Float) : List (Point Float) :=
  unitCorners.map fun c => ⟨center.x + size * c.x, center.y + size * c.y⟩

def pointText (p : Point Float) : Text := tenthsText p.x ++ "," ++ tenthsText p.y

def pointsText (center : Point Float) (size : Float) : Text :=
  Text.intercalate " " ((corners center size).map pointText)

def box (size : Float) : Viewport Float := ⟨Scalar.sqrtThree * size, 2 * size⟩

end Honeycomb.Hexagon
