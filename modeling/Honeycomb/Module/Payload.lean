import Honeycomb.Module.Order
import Honeycomb.Json.Parser

/-!
# Module lists as JSON

A payload is `null`, for no modules, or an array of objects that each have a name of their own.  The
flags are on only if they are exactly `true`; a module is core by either of two flags.  Settings
that are not texts, numbers or booleans are left out, and so is the reserved key.
-/

set_option autoImplicit false

namespace Honeycomb

/-- Why a payload is refused. -/
inductive PayloadError
  | notAnArray
  | notAnObject (index : Nat)
  | unnamed (index : Nat)
  | duplicate (name : Text)
deriving DecidableEq, Repr

def PayloadError.message : PayloadError → Text
  | .notAnArray => "Invalid module list: expected a JSON array"
  | .notAnObject index =>
    "Invalid module at index " ++ Digits.text index ++ ": expected an object"
  | .unnamed index =>
    "Invalid module at index " ++ Digits.text index ++
      ": \"name\" must be a non-empty string"
  | .duplicate name => "Duplicate module name \"" ++ name ++ "\""

namespace Json

/-- The setting that a value is, if it is a scalar. -/
def setting? : Json → Option Setting
  | .text t => some (.text t)
  | .number x => some (.number x)
  | .bool b => some (.flag b)
  | _ => none

def isTrue : Option Json → Bool
  | some (.bool true) => true
  | _ => false

/-- The settings that an optional value holds: the scalar members of an object. -/
def settings : Option Json → Fields Setting
  | some (.object members) =>
    Fields.withoutReserved (members.filterMap fun e => (setting? e.2).map fun s => (e.1, s))
  | _ => []

end Json

namespace Payload

/-- The name in an entry: a text that is not empty. -/
def name? (entry : Json) : Option Text :=
  match entry.member? "name" with
  | some (.text t) => if t = "" then none else some t
  | _ => none

def toModule (entry : Json) (name : Text) : Module :=
  { name
    enabled := Json.isTrue (entry.member? "enabled")
    isCore := Json.isTrue (entry.member? "is_server") || Json.isTrue (entry.member? "isCore")
    settings := Json.settings (entry.member? "settings") }

/-- Reads the entry at an index, when the names in `seen` are taken. -/
def entry (seen : List Text) (index : Nat) : Json → Except PayloadError Module
  | .object members =>
    match name? (.object members) with
    | none => .error (.unnamed index)
    | some name =>
      if seen.contains name then .error (.duplicate name) else .ok (toModule (.object members) name)
  | _ => .error (.notAnObject index)

def entries (seen : List Text) (index : Nat) : List Json → Except PayloadError (List Module)
  | [] => .ok []
  | e :: rest =>
    match entry seen index e with
    | .error err => .error err
    | .ok m =>
      match entries (m.name :: seen) (index + 1) rest with
      | .error err => .error err
      | .ok ms => .ok (m :: ms)

/-- The modules that a payload lists. -/
def modules : Json → Except PayloadError (List Module)
  | .null => .ok []
  | .array items => entries [] 0 items
  | _ => .error .notAnArray

end Payload

namespace Setting

def toJson : Setting → Json
  | .text t => .text t
  | .number x => .number x
  | .flag b => .bool b

def fieldsToJson (fs : Fields Setting) : Json := .object (fs.mapValues toJson)

end Setting

def Module.toJson (m : Module) : Json :=
  .object [("name", .text m.name), ("enabled", .bool m.enabled), ("isCore", .bool m.isCore),
    ("settings", Setting.fieldsToJson m.settings)]

def Module.listToJson (ms : List Module) : Json := .array (ms.map Module.toJson)

end Honeycomb
