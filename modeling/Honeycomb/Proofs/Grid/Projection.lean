import Mathlib.Data.List.Pairwise
import Honeycomb.Grid.Bounds
import Honeycomb.Proofs.Scalar

/-!
# Hexagons do not meet

The centres of hexagons form a lattice: the square of the distance between two of them is three
times the square of their spacing, times a quadratic form of whole numbers.

* `Axial.form` — the form; it is at least one for two different places.
* `distSq_project` — how far two centres are from each other.
* `Hexagon.Covers` — the points of a hexagon; `distSq_le_of_covers` says that they lie in the circle
  around it, and `not_covers_both` that no point lies in two hexagons whose circles do not meet.
-/

set_option autoImplicit false

namespace Honeycomb

namespace Axial

/-- The quadratic form of the grid: the square of the distance between two places, in units of the
distance between neighbours. -/
def form (a b : Axial Int) : Int :=
  (a.q - b.q) * (a.q - b.q) + (a.q - b.q) * (a.r - b.r) + (a.r - b.r) * (a.r - b.r)

/-- **The form is positive definite.** -/
theorem one_le_form {a b : Axial Int} (h : a ≠ b) : 1 ≤ form a b := by
  obtain ⟨q, r⟩ := a
  obtain ⟨q', r'⟩ := b
  simp only [form]
  generalize hx : q - q' = x
  generalize hy : r - r' = y
  by_contra hlt
  -- four times the form is the square of `2 * x + y` and three times that of `y`
  have hsquares : 4 * (x * x + x * y + y * y) = (2 * x + y) * (2 * x + y) + 3 * (y * y) := by ring
  have hyy : y * y = 0 := by nlinarith [mul_self_nonneg (2 * x + y), mul_self_nonneg y]
  have hy0 : y = 0 := mul_self_eq_zero.mp hyy
  subst hy0
  have hx0 : x = 0 := mul_self_eq_zero.mp (by nlinarith [mul_self_nonneg x])
  exact h (by rw [Axial.mk.injEq]; omega)

end Axial

variable {K : Type} [Field K] [LinearOrder K] [RootThree K]

/-- The square of the distance between two points. -/
def Point.distSq (p q : Point K) : K := (p.x - q.x) * (p.x - q.x) + (p.y - q.y) * (p.y - q.y)

variable [IsStrictOrderedRing K]

/-! ## Centres -/

/-- **How far two centres are from each other.** -/
theorem Axial.distSq_project (size : K) (a b : Axial Int) :
    Point.distSq (project size a.cast) (project size b.cast) =
      3 * (size * (118 / 100)) ^ 2 * (form a b : K) := by
  have hroot := Scalar.sqrtThree_mul_self (K := K)
  simp only [Point.distSq, project, projectWith, gapFraction, cast, form, Scalar.ofInt_eq,
    Scalar.ratio_eq]
  push_cast
  generalize (Scalar.sqrtThree : K) = root at hroot
  generalize (a.q : K) = q
  generalize (a.r : K) = r
  generalize (b.q : K) = q'
  generalize (b.r : K) = r'
  linear_combination
    (size * (118 / 100) * (q + r / 2 - (q' + r' / 2))) ^ 2 * hroot

theorem Axial.le_distSq_project (size : K) {a b : Axial Int} (h : a ≠ b) :
    3 * (size * (118 / 100)) ^ 2 ≤ Point.distSq (project size a.cast) (project size b.cast) := by
  have hform : (1 : K) ≤ (form a b : K) := by exact_mod_cast one_le_form h
  rw [distSq_project]
  exact le_mul_of_one_le_right (by positivity) hform

/-! ## Hexagons -/

namespace Hexagon

/-- The points of the hexagon of a size around a centre: it is as wide as its box, and its upper and
lower sides go down from the corners in the middle. -/
structure Covers (size : K) (center p : Point K) : Prop where
  across : |p.x - center.x| ≤ Bounds.halfWidth size
  along : Scalar.sqrtThree * |p.y - center.y| + |p.x - center.x| ≤ Scalar.sqrtThree * size

/-- A hexagon lies in the circle around it. -/
theorem distSq_le_of_covers {size : K} {center p : Point K} (h : Covers size center p) :
    Point.distSq p center ≤ size ^ 2 := by
  obtain ⟨hx, hy⟩ := h
  have hroot := Scalar.sqrtThree_mul_self (K := K)
  have hpos := Scalar.sqrtThree_pos (K := K)
  have hdx := abs_nonneg (p.x - center.x)
  have hdy := abs_nonneg (p.y - center.y)
  simp only [Bounds.halfWidth, Scalar.ofInt_eq, Int.cast_ofNat] at hx
  rw [Point.distSq, ← abs_mul_abs_self (p.x - center.x), ← abs_mul_abs_self (p.y - center.y)]
  generalize |p.x - center.x| = u at hx hy hdx
  generalize |p.y - center.y| = v at hy hdy
  generalize (Scalar.sqrtThree : K) = root at hroot hpos hx hy
  -- the distance from the upper corner down to the side is `root * size - u`
  have hside : root * v * (root * v) ≤ (root * size - u) * (root * size - u) :=
    mul_self_le_mul_self (by positivity) (by linarith)
  have hcorner : 0 ≤ u * (root * size - 2 * u) := mul_nonneg hdx (by linarith)
  have hv : root * v * (root * v) = 3 * (v * v) := by rw [← hroot]; ring
  have hsize : root * size * (root * size) = 3 * size ^ 2 := by rw [← hroot]; ring
  nlinarith

/-- **Two hexagons do not meet** if their centres are further apart than twice their size. -/
theorem not_covers_both {size : K} {a b : Point K} (h : (2 * size) ^ 2 < Point.distSq a b)
    (p : Point K) : ¬ (Covers size a p ∧ Covers size b p) := by
  rintro ⟨ha, hb⟩
  have hda := distSq_le_of_covers ha
  have hdb := distSq_le_of_covers hb
  simp only [Point.distSq] at h hda hdb
  -- by the law of the parallelogram
  have hx := mul_self_nonneg (p.x - a.x + (p.x - b.x))
  have hy := mul_self_nonneg (p.y - a.y + (p.y - b.y))
  nlinarith

end Hexagon

end Honeycomb
