/-!
# Scalars

The geometry of the grid is written once, over any type with the four operations, an order and
a few constants.  Two kinds of scalar use it: the floats that a page is measured in, and the
exact fields over which statements about distances and sizes are made.
-/

set_option autoImplicit false

namespace Honeycomb

/-- The arithmetic that the geometry needs. -/
class Scalar (α : Type) extends Add α, Sub α, Mul α, Div α, LE α, LT α, Min α, Max α,
    IntCast α where
  sqrtThree : α
  /-- Whether a number can stand as a position on a page. -/
  isFinite : α → Bool
  /-- The lower side of a box that holds nothing: above every number, if the type has such a value.
  -/
  emptyLow : α
  emptyHigh : α

-- a type that has operations of its own keeps to them
attribute [instance (low)] Scalar.toAdd Scalar.toSub Scalar.toMul Scalar.toDiv Scalar.toLE
  Scalar.toLT Scalar.toMin Scalar.toMax Scalar.toIntCast

namespace Scalar

variable {α : Type} [Scalar α]

def ofInt (n : Int) : α := (n : α)

def ratio (n d : Int) : α := ofInt n / ofInt d

/-- The lesser of two floats; no number on either side makes it no number. -/
def lesserFloat (x y : Float) : Float :=
  if x.isNaN then x else if y.isNaN then y else if x ≤ y then x else y

def greaterFloat (x y : Float) : Float :=
  if x.isNaN then x else if y.isNaN then y else if y ≤ x then x else y

end Scalar

instance : Scalar Float where
  min := Scalar.lesserFloat
  max := Scalar.greaterFloat
  intCast := Float.ofInt
  sqrtThree := 1.7320508075688772
  isFinite := Float.isFinite
  emptyLow := 1.0 / 0.0
  emptyHigh := -1.0 / 0.0

end Honeycomb
