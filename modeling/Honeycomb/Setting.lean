import Honeycomb.Decimal.Notation
import Honeycomb.Decimal.Reader

/-!
# Settings

The value of a setting is a text, a number or a flag.  It is shown as a text and read back from what
was typed: `Setting.shown` and `Setting.ofTyped`.
-/

set_option autoImplicit false

namespace Honeycomb

/-- The value of a setting. -/
inductive Setting
  | text (t : Text)
  | number (x : Float)
  | flag (b : Bool)
deriving DecidableEq

namespace Setting

def shown : Setting → Text
  | .text t => t
  | .number x => numberText x
  | .flag true => "true"
  | .flag false => "false"

/-- The greatest number up to which every natural number is a float of its own. -/
def greatestSafe : Nat := Nat.pow 2 53 - 1

/-- Whether a binary fraction is a whole number up to the greatest safe one. -/
def isSafeFraction (b : Binary) : Bool :=
  let scaled := b.significand * Nat.pow 2 b.exponent.toNat
  let place := Nat.pow 2 (-b.exponent).toNat
  scaled % place == 0 && scaled / place ≤ greatestSafe

def isSafe (x : Float) : Bool :=
  match x.toModel.unpack with
  | .zero _ => true
  | .finite _ m e _ => isSafeFraction ⟨m, e⟩
  | _ => false

/-- The number that typed units stand for: digits with at most one point inside.  Digits whose
number is not a safe one stand for none. -/
def number? (us : List UInt16) : Option Float :=
  let (whole, rest) := Digits.take us
  if whole.isEmpty then none
  else
    match rest with
    | [] =>
      let x := nearestFloat (Digits.toNat whole) 0
      if isSafe x then some x else none
    | point :: fraction =>
      if point = Text.unit '.' && !fraction.isEmpty && fraction.all Digits.isDigit then
        some (floatOfParts whole fraction 0)
      else none

/-- The value that typed text stands for: one of the two flags, a number, or the text itself. -/
def ofTyped (t : Text) : Setting :=
  if t = "true" then .flag true
  else if t = "false" then .flag false
  else
    match number? t.units with
    | some x => .number x
    | none => .text t

end Setting

end Honeycomb
