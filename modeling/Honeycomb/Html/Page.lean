import Honeycomb.Module.Payload
import Honeycomb.Json.Inline
import Honeycomb.Text.Replace

/-!
# Pages that stand alone

A page with its data and its code inside: the first mark for the data is replaced by a script that
holds the modules, and then the first reference to the code by a script that holds the code.
-/

set_option autoImplicit false

namespace Honeycomb.Html

def dataMark : Text := "<!-- INLINE_DATA -->"

def codeReference : Text := "<script src=\"dist/bundle.js\"></script>"

def script (text : Text) : Text := "<script>" ++ text ++ "</script>"

/-- The assignments that hand the data to the page: the modules, and the address of the service if
there is one. -/
def assignments (modules : List Module) (service : Text) : List Text :=
  ("window.MODULE_DATA = " ++ (Module.listToJson modules).inline ++ ";") ::
    if service = "" then [] else ["window.HEXDECK_API = " ++ (Json.text service).inline ++ ";"]

def dataScript (modules : List Module) (service : Text) : Text :=
  script (Text.intercalate " " (assignments modules service))

/-- The page with data and code put in. -/
def fill (page code : Text) (modules : List Module) (service : Text) : Text :=
  let data := (dataScript modules service).units
  let withData := Text.replaceFirst dataMark.units data page.units
  ⟨Text.replaceFirst codeReference.units (script code).units withData⟩

inductive PageError
  | noCode (directory : Text)
  | noPage (directory : Text)
deriving DecidableEq, Repr

def PageError.message : PageError → Text
  | .noCode directory =>
    "Visualiser bundle not found at " ++ directory ++
      "/dist/bundle.js.\nRun \"npm run build:visualiser\" first."
  | .noPage directory => "ENOENT: no such file or directory, open '" ++ directory ++ "/index.html'"

/-- The parts of a page, as far as a directory holds them. -/
structure Parts where
  directory : Text
  page : Option Text
  code : Option Text
deriving DecidableEq, Repr

/-- The page made from its parts; a missing code is noticed before a missing page. -/
def render (parts : Parts) (modules : List Module) (service : Text) : Except PageError Text :=
  match parts.code, parts.page with
  | none, _ => .error (.noCode parts.directory)
  | some _, none => .error (.noPage parts.directory)
  | some code, some page => .ok (fill page code modules service)

end Honeycomb.Html
