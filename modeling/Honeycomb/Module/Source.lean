import Honeycomb.Module.Payload
import Honeycomb.Text.Utf8

/-!
# Module lists from files

A saved payload is read, checked and put in order.
-/

set_option autoImplicit false

namespace Honeycomb

/-- Why a saved module list cannot be loaded. -/
inductive SourceError
  | missing (source : Text)
  /-- The text is no JSON, with what the reader of JSON says of it. -/
  | notJson (source complaint : Text)
  | payload (error : PayloadError)
  | unreadable (reason : Text)
deriving DecidableEq, Repr

def SourceError.message : SourceError → Text
  | .missing source => "File not found: " ++ source
  | .notJson source complaint => "Invalid JSON in " ++ source ++ ": " ++ complaint
  | .payload error => error.message
  | .unreadable reason => reason

namespace Source

def unnamed : Text := "<input>"

/-- The modules, in order, that a text lists.  `complaint` gives what the reader of JSON says of a
text that it refuses. -/
def parse (complaint : Text → Text) (text source : Text) : Except SourceError (List Module) :=
  match Json.parse? text with
  | none => .error (.notJson source (complaint text))
  | some raw =>
    match Payload.modules raw with
    | .error e => .error (.payload e)
    | .ok ms => .ok (Module.sort ms)

/-- What is found where a file is looked for. -/
inductive Content
  | absent
  | directory
  | text (s : String)
  | bytes (bs : List Nat)
deriving DecidableEq, Repr

def load (complaint : Text → Text) (content : Content) (source : Text) :
    Except SourceError (List Module) :=
  match content with
  | .absent => .error (.missing source)
  | .directory => .error (.unreadable "EISDIR: illegal operation on a directory, read")
  | .text s => parse complaint s source
  | .bytes bs => parse complaint (.ofChars (Text.Utf8.decode bs)) source

end Source

end Honeycomb
