import Honeycomb.Module.Basic
import Honeycomb.Text.Blank

/-!
# Colours

Every colour is a variable of the page's style with a fallback.  Where no style applies the fallback
itself is written: `Palette.solid` takes it out of `var(--name, fallback)` and leaves every other
text as it is.
-/

set_option autoImplicit false

namespace Honeycomb

/-- The colours of a node: its area and its texts. -/
structure Ink where
  fill : Text
  text : Text
deriving DecidableEq, Repr

namespace Palette

def coreFill : Text := "var(--hex-core-fill, #c7dbf5)"

def coreText : Text := "var(--hex-core-text, #1e40af)"

def onFill : Text := "var(--hex-on-fill, #c6f0d2)"

def onText : Text := "var(--hex-on-text, #15803d)"

def offFill : Text := "var(--hex-off-fill, #e8eaed)"

def offText : Text := "var(--hex-off-text, #6b7280)"

def linkOn : Text := "var(--hex-link-on, #93bbf0)"

def linkOff : Text := "var(--hex-link-off, #c8cdd3)"

def muted : Text := "var(--hex-muted, #656d76)"

def error : Text := "var(--hex-error, #cf222e)"

def named : List (Text × Text) :=
  [("coreFill", coreFill), ("coreText", coreText), ("onFill", onFill), ("onText", onText),
   ("offFill", offFill), ("offText", offText), ("linkOn", linkOn), ("linkOff", linkOff),
   ("muted", muted), ("error", error)]

def ofCategory : Category → Ink
  | .core => ⟨coreFill, coreText⟩
  | .on => ⟨onFill, onText⟩
  | .off => ⟨offFill, offText⟩

def ofLink (enabled : Bool) : Text := if enabled then linkOn else linkOff

def linkWidth : Float := 1.5

def linkOpacity : Float := 0.4

def linkDashes : Text := "4,3"

def isNameUnit (u : UInt16) : Bool :=
  Digits.isDigit u || Text.unit 'a' ≤ u && u ≤ Text.unit 'z' ||
    Text.unit 'A' ≤ u && u ≤ Text.unit 'Z' || u == Text.unit '_' || u == Text.unit '-'

/-- What stands before a closing bracket at the very end, if there is something and no other closing
bracket in it. -/
def beforeBracket? (us : List UInt16) : Option (List UInt16) :=
  match us.reverse with
  | [] => none
  | last :: backwards =>
    if last = Text.unit ')' && !backwards.isEmpty && !backwards.contains (Text.unit ')') then
      some backwards.reverse
    else none

/-- The fallback inside `var(--name, fallback)`, if a text has that form: a name of at least one
unit, a comma, and what stands before the closing bracket. -/
def fallback? (us : List UInt16) : Option (List UInt16) := do
  let rest ← Text.dropStart? (Text.unitsOf "var(--") us
  if (rest.takeWhile isNameUnit).isEmpty then none
  else
    let rest ← Text.dropStart? [Text.unit ','] (rest.dropWhile isNameUnit)
    let inside ← beforeBracket? rest
    some (Text.trim inside)

/-- The fallback of a variable; any other text as it is. -/
def solid (color : Text) : Text :=
  match fallback? color.units with
  | some us => ⟨us⟩
  | none => color

end Palette

end Honeycomb
