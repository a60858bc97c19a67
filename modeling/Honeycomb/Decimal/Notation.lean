import Honeycomb.Decimal.Shortest

/-!
# The text of a number

Numbers are written with the fewest digits that identify them: positionally from a millionth up to
`10 ^ 21`, with a signed exponent outside of that.  A zero has no sign.
-/

set_option autoImplicit false

namespace Honeycomb

namespace Decimal

/-- The digits are written out positionally when the point stands at most here. -/
def positionalLimit : Int := 21

/-- At most this many zeros, plus one, stand between the point and the digits. -/
def leadingZeroLimit : Int := -6

def zeros (n : Nat) : List UInt16 := List.replicate n (Text.unit '0')

def exponentPart (e : Int) : List UInt16 :=
  Text.unit 'e' :: Text.unit (if e < 0 then '-' else '+') :: Digits.ofNat e.natAbs

/-- The units of a positive decimal.  The point stands after `point` of its digits. -/
def units (d : Decimal) : List UInt16 :=
  let digits := Digits.ofNat d.coefficient
  let point : Int := digits.length + d.exponent
  if 0 < point ∧ point ≤ positionalLimit then
    if 0 ≤ d.exponent then digits ++ zeros d.exponent.toNat
    else digits.take point.toNat ++ Text.unit '.' :: digits.drop point.toNat
  else if leadingZeroLimit < point ∧ point ≤ 0 then
    Text.unit '0' :: Text.unit '.' :: zeros (-point).toNat ++ digits
  else
    match digits with
    | [] => []
    | [d] => d :: exponentPart (point - 1)
    | d :: rest => d :: Text.unit '.' :: rest ++ exponentPart (point - 1)

end Decimal

open Float.Model in
def numberUnits (x : Float) : List UInt16 :=
  match x.toModel.unpack with
  | .notANumber => Text.unitsOf "NaN"
  | .infinity .positive => Text.unitsOf "Infinity"
  | .infinity .negative => Text.unitsOf "-Infinity"
  | .zero _ => [Text.unit '0']
  | .finite .positive m e _ => (Binary.shortest ⟨m, e⟩).units
  | .finite .negative m e _ => Text.unit '-' :: (Binary.shortest ⟨m, e⟩).units

def numberText (x : Float) : Text := ⟨numberUnits x⟩

end Honeycomb
