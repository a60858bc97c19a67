import Honeycomb.Grid.Fit

/-!
# Where a popup goes

A popup stands to the right of its hexagon, or to the left if it would cross the right edge of the
surface, and is then moved down or up to stay clear of the upper and lower edges.
-/

set_option autoImplicit false

namespace Honeycomb.Placement

def defaultWidth : Int := 280

def defaultHeight : Int := 300

def gap : Int := 24

/-- How far a popup's upper edge lies above the centre of its hexagon. -/
def rise : Int := 50

/-- The room that a popup keeps from the upper and the lower edge. -/
def margin : Int := 10

variable {α : Type} [Scalar α] [DecidableLT α]

def defaultSize : Viewport α := ⟨Scalar.ofInt defaultWidth, Scalar.ofInt defaultHeight⟩

/-- The left edge of a popup of a width beside the hexagon of a size centred at `x`. -/
def left (x hexSize surfaceWidth width : α) : α :=
  let right := x + hexSize + Scalar.ofInt gap
  if surfaceWidth < right + width then x - hexSize - width else right

/-- The upper edge of a popup of a height beside a hexagon centred at `y`. -/
def top (y surfaceHeight height : α) : α :=
  let wanted := y - Scalar.ofInt rise
  let lowered := if wanted < Scalar.ofInt margin then Scalar.ofInt margin else wanted
  if surfaceHeight < lowered + height then
    max (Scalar.ofInt margin) (surfaceHeight - height - Scalar.ofInt margin)
  else lowered

/-- The upper left corner of a popup of some size beside the hexagon of a size at an anchor. -/
def place (anchor : Point α) (hexSize : α) (surface size : Viewport α) : Point α :=
  { x := left anchor.x hexSize surface.width size.width
    y := top anchor.y surface.height size.height }

end Honeycomb.Placement
