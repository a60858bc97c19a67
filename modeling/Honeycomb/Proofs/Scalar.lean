import Mathlib
import Honeycomb.Scalar

/-!
# Exact scalars

Every ordered field that holds a square root of three is a kind of scalar: the geometry can be
computed in it without rounding.

* `RootThree` — such a root, with the two facts that make it one.
* `Scalar.exact` — the scalars of such a field; every one of them is finite.
-/

set_option autoImplicit false

namespace Honeycomb

/-- A square root of three in an ordered field. -/
class RootThree (K : Type) [Field K] [LinearOrder K] where
  root : K
  root_pos : 0 < root
  root_mul_self : root * root = 3

/-- The reals hold it. -/
noncomputable instance : RootThree ℝ where
  root := √3
  root_pos := Real.sqrt_pos.mpr (by norm_num)
  root_mul_self := Real.mul_self_sqrt (by norm_num)

variable {K : Type} [Field K] [LinearOrder K] [RootThree K]

/-- The scalars of an ordered field.  No field has a number beyond all others, so that the box
around nothing is put at zero. -/
instance (priority := low) Scalar.exact : Scalar K where
  sqrtThree := RootThree.root
  isFinite _ := true
  emptyLow := 0
  emptyHigh := 0

namespace Scalar

@[simp] theorem ofInt_eq (n : Int) : (ofInt n : K) = n := rfl

@[simp] theorem ratio_eq (n d : Int) : (ratio n d : K) = n / d := rfl

@[simp] theorem isFinite_eq (x : K) : isFinite x = true := rfl

theorem sqrtThree_pos : (0 : K) < sqrtThree := RootThree.root_pos

theorem sqrtThree_mul_self : (sqrtThree : K) * sqrtThree = 3 := RootThree.root_mul_self

end Scalar

end Honeycomb
