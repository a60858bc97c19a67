import Honeycomb.Json.Basic
import Honeycomb.Decimal.Notation

/-!
# Values as plain text

How a value reads in the middle of a sentence: a text stands for itself, the items of an array are
joined by commas, with nothing for `null`, and of an object no more is told than that it is one.
-/

set_option autoImplicit false

namespace Honeycomb.Json

mutual

/-- A value as plain text. -/
def plain : Json → Text
  | .null => "null"
  | .bool true => "true"
  | .bool false => "false"
  | .number x => numberText x
  | .text t => t
  | .array items => Text.intercalate "," (plainItems items)
  | .object _ => "[object Object]"

def plainItems : List Json → List Text
  | [] => []
  | .null :: rest => "" :: plainItems rest
  | v :: rest => plain v :: plainItems rest

end

end Honeycomb.Json
