import Honeycomb.Json.Printer

/-!
# JSON inside a script element

Wherever a value's text would hold `</`, which ends a script element, a backslash is put between
the two characters.  Inside a quoted text `\/` stands for `/`, so the value stays the same.
-/

set_option autoImplicit false

namespace Honeycomb.Json

/-- Puts a unit in front of guarded ones; a backslash keeps `<` and `/` apart. -/
def guardUnit (u : UInt16) (guarded : List UInt16) : List UInt16 :=
  if u = Text.unit '<' && guarded.head? == some (Text.unit '/') then
    u :: Text.unit '\\' :: guarded
  else u :: guarded

/-- The units with a backslash in every `</`. -/
def guardClosers (us : List UInt16) : List UInt16 := us.foldr guardUnit []

/-- A value as it stands inside a script element. -/
def inline (v : Json) : Text := ⟨guardClosers (units v)⟩

end Honeycomb.Json
