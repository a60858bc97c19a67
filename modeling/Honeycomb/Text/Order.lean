import Honeycomb.Text.Basic

/-!
# The order of texts

Texts are ordered by their units, so that the pairs of surrogates sort below the characters from
`U+E000` on.
-/

set_option autoImplicit false

namespace Honeycomb.Text

/-- Whether a text sorts before another one. -/
def Before (s t : Text) : Prop := s.units < t.units

instance (s t : Text) : Decidable (Before s t) := inferInstanceAs (Decidable (s.units < t.units))

/-- Whether a text sorts before another one or is the same. -/
def inOrder (s t : Text) : Bool := !decide (Before t s)

end Honeycomb.Text
