import Honeycomb.Fields

/-!
# JSON values

Numbers are floats, as everywhere on a page, and the members of an object keep the order of
`Fields`.
-/

set_option autoImplicit false

namespace Honeycomb

/-- A JSON value.  The members of an object are an ordered map. -/
inductive Json where
  | null
  | bool (b : Bool)
  | number (x : Float)
  | text (t : Text)
  | array (items : List Json)
  | object (members : List (Text × Json))

namespace Json

def member? : Json → Text → Option Json
  | .object members, key => Fields.get? members key
  | _, _ => none

end Json

end Honeycomb
