/-!
# Replacing a part

Replacement of the first occurrence of a fixed part of a list.  What is put in stands as it is
given.
-/

set_option autoImplicit false

namespace Honeycomb.Text

/-- The list with the first occurrence of `old` replaced by `new`, or the list itself if there is
none. -/
def replaceFirst {α : Type} [BEq α] (old new : List α) : List α → List α
  | [] => if old.isEmpty then new else []
  | c :: rest =>
    if old.isPrefixOf (c :: rest) then new ++ (c :: rest).drop old.length
    else c :: replaceFirst old new rest

end Honeycomb.Text
