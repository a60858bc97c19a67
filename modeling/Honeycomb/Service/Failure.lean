import Honeycomb.Module.Payload
import Honeycomb.Layout

/-!
# Failures

What can go wrong while a page measures its surface, calls its service or lays out its modules.  A
failure has a message for the page and a longer report for the log.
-/

set_option autoImplicit false

namespace Honeycomb

/-- Why something failed. -/
inductive Failure
  | raised (message : Text)
  /-- An answer that is no JSON, with what the reader of JSON says of it. -/
  | malformed (complaint : Text)
  /-- An answer with a status that is no success. -/
  | status (code : Float)
  /-- A name with a lone surrogate, which no address can hold. -/
  | unaddressable
  | payload (error : PayloadError)
  | layout (error : LayoutError Float)
  /-- Something thrown that is no error, by its text. -/
  | thrown (text : Text)
deriving DecidableEq

namespace Failure

def message : Failure → Text
  | .raised message => message
  | .malformed complaint => complaint
  | .status code => "GET /api/config failed: " ++ numberText code
  | .unaddressable => "URI malformed"
  | .payload error => error.message
  | .layout error => error.message
  | .thrown text => text

/-- The kind of an error; what is thrown without being an error has none. -/
def kind? : Failure → Option Text
  | .malformed _ => some "SyntaxError"
  | .unaddressable => some "URIError"
  | .thrown _ => none
  | _ => some "Error"

def report (f : Failure) : Text :=
  match f.kind? with
  | some kind => kind ++ ": " ++ f.message
  | none => f.message

end Failure

end Honeycomb
