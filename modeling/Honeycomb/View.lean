import Honeycomb.Layout
import Honeycomb.Placement

/-!
# Views

What a page shows at one time, as a complete description: a layout with or without a popup, or one
of the states in which there is no layout to show.
-/

set_option autoImplicit false

namespace Honeycomb

inductive Popup
  | closed
  /-- The popup is open on a module: the centre of its node, and the popup's upper left corner. -/
  | opened (name : Text) (anchor position : Point Float)
deriving DecidableEq

namespace Popup

def name? : Popup → Option Text
  | .closed => none
  | .opened name _ _ => some name

def isOpenOn (p : Popup) (name : Text) : Bool := p.name? == some name

end Popup

/-- What a page shows. -/
inductive View
  | layout (layout : Layout Float) (popup : Popup)
  | empty
  /-- The surface has no size yet; another attempt is to come. -/
  | waiting (surface : Viewport Float) (attempt : Nat)
  /-- The surface still had no size at the last attempt. -/
  | unavailable (surface : Viewport Float)
  /-- Something failed; the layout from before stays. -/
  | error (message : Text) (previous : Option (Layout Float))
deriving DecidableEq

def Viewport.text (v : Viewport Float) : Text := numberText v.width ++ "x" ++ numberText v.height

namespace View

def placeholder? : View → Option Text
  | .empty => some "No config loaded"
  | .waiting surface _ => some ("Loading grid (canvas: " ++ surface.text ++ ")...")
  | .unavailable surface => some ("Grid unavailable (canvas: " ++ surface.text ++ ")")
  | .layout _ _ => none
  | .error _ _ => none

end View

end Honeycomb
