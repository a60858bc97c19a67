import Honeycomb.Service.Failure
import Honeycomb.Json.Printer
import Honeycomb.Text.Percent

/-!
# The admin service

The requests by which modules are fetched, toggled and updated over the network, and what their
answers mean.  The name of a module is a part of the address, so that for a name with a lone
surrogate there is no request.
-/

set_option autoImplicit false

namespace Honeycomb

structure Request where
  url : Text
  /-- `none` for a plain fetch. -/
  method : Option Text
  headers : Fields Text
  body : Option Text
deriving DecidableEq, Repr

/-- What became of a request. -/
inductive Reply
  /-- An answer, with what the reader of JSON says of its body if it refuses it. -/
  | answered (status : Float) (body complaint : Text)
  | refused (message : Text)
deriving DecidableEq

namespace Reply

def isSuccess (status : Float) : Bool := 200 ≤ status && status < 300

/-- The modules in an answer, in order. -/
def modules : Reply → Except Failure (List Module)
  | .refused message => .error (.raised message)
  | .answered status body complaint =>
    if isSuccess status then
      match Json.parse? body with
      | none => .error (.malformed complaint)
      | some raw =>
        match Payload.modules raw with
        | .error e => .error (.payload e)
        | .ok ms => .ok (Module.sort ms)
    else .error (.status status)

def accepted : Reply → Except Failure Bool
  | .refused message => .error (.raised message)
  | .answered status _ _ => .ok (isSuccess status)

def absent : Reply := .refused "no response"

def next : List Reply → Reply × List Reply
  | [] => (absent, [])
  | r :: rest => (r, rest)

end Reply

/-- How the admin service is reached. -/
structure Admin where
  /-- The address without trailing slashes. -/
  base : Text
  key : Option Text
deriving DecidableEq, Repr

namespace Admin

def dropSlashes (us : List UInt16) : List UInt16 :=
  (us.reverse.dropWhile (· == Text.unit '/')).reverse

/-- The service at an address; an empty key is none. -/
def ofUrl (url : Text) (key : Option Text) : Admin :=
  { base := ⟨dropSlashes url.units⟩, key := key.filter (· != "") }

/-- The headers of a request: its own and the key. -/
def headers (a : Admin) (own : Fields Text) : Fields Text :=
  match a.key with
  | none => own
  | some key => own.set "X-API-Key" key

def fetchRequest (a : Admin) : Request :=
  { url := a.base ++ "/api/config", method := none, headers := a.headers [], body := none }

/-- Asks to flip a module, unless no address can hold its name. -/
def toggleRequest? (a : Admin) (name : Text) : Option Request :=
  (Text.Percent.segment? name).map fun segment =>
    { url := a.base ++ "/api/toggle/" ++ segment
      method := some "POST", headers := a.headers [], body := none }

def updateRequest? (a : Admin) (name : Text) (fields : Fields Setting) : Option Request :=
  (Text.Percent.segment? name).map fun segment =>
    { url := a.base ++ "/api/update/" ++ segment
      method := some "POST"
      headers := a.headers [("Content-Type", "application/json")]
      body := some (Setting.fieldsToJson fields).render }

end Admin

end Honeycomb
