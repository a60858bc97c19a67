import Honeycomb.Text.Basic

/-!
# Text inside markup

The five characters that mean something to a reader of markup are written as entities.
-/

set_option autoImplicit false

namespace Honeycomb.Text.Markup

/-- A unit as it stands in an attribute or between tags. -/
def escapeUnit (u : UInt16) : List UInt16 :=
  if u = unit '&' then unitsOf "&amp;"
  else if u = unit '<' then unitsOf "&lt;"
  else if u = unit '>' then unitsOf "&gt;"
  else if u = unit '"' then unitsOf "&quot;"
  else if u = unit '\'' then unitsOf "&apos;"
  else [u]

def escape (t : Text) : Text := ⟨t.units.flatMap escapeUnit⟩

end Honeycomb.Text.Markup
