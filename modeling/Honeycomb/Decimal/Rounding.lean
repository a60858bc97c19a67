import Honeycomb.Decimal.Notation

/-!
# Rounding to decimal places

Two ways to cut a position down to a few places.

* `tenthsText` writes one place of the exact value of a float, a tie going away from zero.
* `hundredths` is the float nearest to a whole number of hundredths, a tie going upwards.
-/

set_option autoImplicit false

namespace Honeycomb

/-- `n / d` rounded to the nearest natural number, a half going up. -/
def roundHalfUp (n d : Nat) : Nat := (2 * n + d) / (2 * d)

def Binary.tenths (b : Binary) : Nat :=
  roundHalfUp (10 * b.significand * Nat.pow 2 b.exponent.toNat) (Nat.pow 2 (-b.exponent).toNat)

def tenthsUnits (n : Nat) : List UInt16 :=
  Digits.ofNat (n / 10) ++ [Text.unit '.', Digits.digit (n % 10)]

/-- From here on a number is written in full, even where one place is asked for. -/
def Binary.isHuge (b : Binary) : Bool :=
  decide (Nat.pow 10 21 ≤
    b.significand * Nat.pow 2 b.exponent.toNat / Nat.pow 2 (-b.exponent).toNat)

open Float.Model in
/-- A float with one decimal place.  The sign of a negative number stays even when only zeros are
left. -/
def tenthsText (x : Float) : Text :=
  match x.toModel.unpack with
  | .zero _ => "0.0"
  | .finite s m e _ =>
    let b : Binary := ⟨m, e⟩
    if b.isHuge then numberText x
    else match s with
      | .positive => ⟨tenthsUnits b.tenths⟩
      | .negative => ⟨Text.unit '-' :: tenthsUnits b.tenths⟩
  | _ => numberText x

open Float.Model in
/-- The nearest whole number, a half going upwards. -/
def nearestWhole (x : Float) : Float :=
  match x.toModel.unpack with
  | .finite s m e _ =>
    if 0 ≤ e then x
    else
      let unit : Int := Int.pow 2 (-e).toNat
      let value : Int := match s with
        | .positive => m
        | .negative => -m
      Float.ofInt (Int.fdiv (2 * value + unit) (2 * unit))
  | _ => x

def hundredths (x : Float) : Float := nearestWhole (x * 100) / 100

end Honeycomb
