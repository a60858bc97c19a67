import Honeycomb.View
import Honeycomb.Service.Failure

/-!
# The controller: what it knows, hears and asks for

A controller owns the module list, the layout drawn from it and the popup.  It is told of events,
one at a time, and answers each with a new controller and a list of effects for its host to carry
out.

Attempts to draw are numbered by generation: recomputing and hiding start a new one, and a retry of
an older generation is void.  Refreshes are numbered by their start; only the latest one takes
effect.
-/

set_option autoImplicit false

namespace Honeycomb

/-- Another attempt to draw, put off until the host draws next. -/
structure Retry where
  generation : Nat
  /-- How many attempts were put off before. -/
  count : Nat
deriving DecidableEq, Repr

/-- A call of the service. -/
inductive Call
  | fetch (refresh : Nat)
  | toggle (name : Text)
  | update (name : Text) (fields : Fields Setting)
deriving DecidableEq

inductive Level
  | error
  | warn
deriving DecidableEq, Repr

def Level.word : Level → Text
  | .error => "error"
  | .warn => "warn"

structure LogLine where
  level : Level
  parts : List Text
deriving DecidableEq, Repr

/-- What a controller asks its host to do. -/
inductive Effect
  | draw (view : View)
  | log (line : LogLine)
  | schedule (retry : Retry)
  | call (call : Call)
deriving DecidableEq

/-- What a controller is told. -/
inductive Event
  /-- Draw these modules from scratch. -/
  | recompute (modules : List Module)
  | resize
  | activate
  | deactivate
  | clickNode (name : Text)
  | clickOutside
  | retry (retry : Retry)
  | refresh
  | toggle (name : Text)
  | save (name : Text) (typed : Fields Text)
  | fetched (refresh : Nat) (result : Except Failure (List Module))
  | toggled (name : Text) (result : Except Failure Bool)
  | saved (name : Text) (result : Except Failure Bool)

/-- What a controller knows. -/
structure Controller where
  modules : List Module
  layout : Option (Layout Float)
  popup : Popup
  view : Option View
  active : Bool
  generation : Nat
  refreshes : Nat
deriving DecidableEq

namespace Controller

/-- What stays the same for a controller's whole life. -/
structure Config where
  padding : Float
  popupSize : Viewport Float
deriving DecidableEq

def Config.default : Config :=
  { padding := Scalar.ofInt HexSize.defaultPadding, popupSize := Placement.defaultSize }

/-- A controller that nobody has told anything. -/
def initial : Controller :=
  { modules := [], layout := none, popup := .closed, view := none, active := true,
    generation := 0, refreshes := 0 }

/-- A surface must be larger than this in both directions to be drawn on. -/
def leastSide : Float := 50

def retryLimit : Nat := 20

def isReady (surface : Viewport Float) : Bool :=
  leastSide < surface.width && leastSide < surface.height

/-- What comes of an event: the new controller, the effects in order, and what went wrong if the
event was broken off. -/
structure Outcome where
  controller : Controller
  effects : List Effect
  failure : Option Failure
deriving DecidableEq

end Controller

end Honeycomb
