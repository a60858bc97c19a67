import Honeycomb.Decimal.Reader
import Honeycomb.Text.Blank

/-!
# Numbers given as options

The text of an option as a number.  Blanks around it do not count and an empty text is zero.
Decimals may leave out either side of the point; `0x`, `0o` and `0b` start a number in another
base, without a sign; `Infinity` may have one.
-/

set_option autoImplicit false

namespace Honeycomb.Literal

/-- Whether a unit is a letter, in lower or in upper case. -/
def isLetter (lower upper : Char) (u : UInt16) : Bool :=
  u == Text.unit lower || u == Text.unit upper

def digitValue? (base : Nat) (u : UInt16) : Option Nat :=
  let n :=
    if Digits.isDigit u then Digits.value u
    else if Text.unit 'a' ≤ u ∧ u ≤ Text.unit 'f' then u.toNat - 'a'.toNat + 10
    else if Text.unit 'A' ≤ u ∧ u ≤ Text.unit 'F' then u.toNat - 'A'.toNat + 10
    else 16
  if n < base then some n else none

/-- The number that digits spell in some base; at least one is needed. -/
def based? (base : Nat) : List UInt16 → Option Nat
  | [] => none
  | us => us.foldlM (fun n u => (digitValue? base u).map (base * n + ·)) 0

/-- Takes a sign off a number; `true` stands for a minus. -/
def takeSign : List UInt16 → Bool × List UInt16
  | [] => (false, [])
  | u :: rest =>
    if u = Text.unit '-' then (true, rest)
    else if u = Text.unit '+' then (false, rest)
    else (false, u :: rest)

/-- The exponent at the end of a decimal: none, or a mark, a sign and digits. -/
def exponent? : List UInt16 → Option Int
  | [] => some 0
  | mark :: rest =>
    if isLetter 'e' 'E' mark then
      let (negative, digits) := takeSign rest
      if digits.isEmpty || !digits.all Digits.isDigit then none
      else
        let n : Int := Digits.toNat digits
        some (if negative then -n else n)
    else none

def takeFraction : List UInt16 → List UInt16 × List UInt16
  | [] => ([], [])
  | u :: rest => if u = Text.unit '.' then Digits.take rest else ([], u :: rest)

def unsignedDecimal? (us : List UInt16) : Option Float :=
  if us = Text.unitsOf "Infinity" then some infinity
  else
    let (whole, rest) := Digits.take us
    let (fraction, rest) := takeFraction rest
    if whole.isEmpty && fraction.isEmpty then none
    else (exponent? rest).map (floatOfParts whole fraction)

def decimal? (us : List UInt16) : Option Float :=
  let (negative, rest) := takeSign us
  (unsignedDecimal? rest).map fun x => if negative then -x else x

/-- The base that the letter behind a leading zero calls for. -/
def base? (u : UInt16) : Option Nat :=
  if isLetter 'x' 'X' u then some 16
  else if isLetter 'o' 'O' u then some 8
  else if isLetter 'b' 'B' u then some 2
  else none

def splitBase? : List UInt16 → Option (Nat × List UInt16)
  | zero :: mark :: digits =>
    if zero = Text.unit '0' then (base? mark).map fun base => (base, digits) else none
  | _ => none

/-- The number that an option's text stands for, if it stands for one. -/
def read? (text : Text) : Option Float :=
  let us := Text.trim text.units
  if us.isEmpty then some 0
  else
    match splitBase? us with
    | some (base, digits) => (based? base digits).map (nearestFloat · 0)
    | none => decimal? us

end Honeycomb.Literal
