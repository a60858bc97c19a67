import Honeycomb.Scalar

/-!
# Axial coordinates

A hexagonal grid is addressed by two coordinates `q` and `r`; the third, `-q - r`, is left out.
Six directions lead to the neighbours of a hexagon.  Coordinates are integers on the grid itself;
the same walks also run over other numbers.
-/

set_option autoImplicit false

namespace Honeycomb

/-- A place on the grid. -/
structure Axial (κ : Type) where
  q : κ
  r : κ
deriving DecidableEq, Repr

namespace Axial

variable {κ : Type}

def origin : Axial Int := ⟨0, 0⟩

/-- The ways to the six neighbours, one after the other around a hexagon. -/
def directions : List (Axial Int) :=
  [⟨1, 0⟩, ⟨1, -1⟩, ⟨0, -1⟩, ⟨-1, 0⟩, ⟨-1, 1⟩, ⟨0, 1⟩]

/-- The direction in which a ring's first place lies from the origin. -/
def startDirection : Axial Int := ⟨-1, 1⟩

def step [Add κ] [IntCast κ] (a : Axial κ) (d : Axial Int) : Axial κ :=
  ⟨a.q + (d.q : κ), a.r + (d.r : κ)⟩

/-- The place `radius` steps from the origin in a direction. -/
def corner [Mul κ] [IntCast κ] (d : Axial Int) (radius : κ) : Axial κ :=
  ⟨(d.q : κ) * radius, (d.r : κ) * radius⟩

/-- The least number of steps between two places is the distance of their difference from the
origin. -/
def distance (a : Axial Int) : Nat := max a.q.natAbs (max a.r.natAbs (a.q + a.r).natAbs)

def cast [IntCast κ] (a : Axial Int) : Axial κ := ⟨(a.q : κ), (a.r : κ)⟩

end Axial

end Honeycomb
