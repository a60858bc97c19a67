import Honeycomb.Controller.Basic

/-!
# The controller's step

`Controller.step` is the answer to one event.  What it draws is always a complete view.  A failure
closes the popup and is shown above the layout from before; nothing that was asked of the service is
applied before a refresh has reported it.
-/

set_option autoImplicit false

namespace Honeycomb.Controller

def idle (c : Controller) : Outcome := ⟨c, [], none⟩

def draw (c : Controller) (view : View) : Outcome :=
  ⟨{ c with view := some view }, [.draw view], none⟩

def drawLayout (c : Controller) (layout : Layout Float) : Outcome := c.draw (.layout layout c.popup)

/-- Closes the popup and shows what went wrong. -/
def fail (c : Controller) (context : Text) (failure : Failure) : Outcome :=
  let view := View.error (context ++ ": " ++ failure.message) c.layout
  { controller := { c with popup := .closed, view := some view }
    effects := [.log ⟨.error, [context ++ ":", failure.report]⟩, .draw view]
    failure := none }

/-- An attempt to draw the modules.  `surface` is what measuring would give now. -/
def attempt (cfg : Config) (surface : Except Failure (Viewport Float)) (c : Controller)
    (retry : Retry) : Outcome :=
  if retry.generation ≠ c.generation then c.idle
  else if c.modules.isEmpty then { c with layout := none }.draw .empty
  else
    match surface with
    | .error failure => ⟨c, [], some failure⟩
    | .ok surface =>
      if isReady surface then
        match Layout.ofModules c.modules surface cfg.padding with
        | .error e => c.fail "Hex grid error" (.layout e)
        | .ok layout => { c with layout := some layout }.drawLayout layout
      else if retry.count < retryLimit then
        let view := View.waiting surface (retry.count + 1)
        { controller := { c with view := some view }
          effects := [.draw view, .schedule { retry with count := retry.count + 1 }]
          failure := none }
      else c.draw (.unavailable surface)

/-- Takes over a module list, closes the popup and, if active, draws. -/
def recompute (cfg : Config) (surface : Except Failure (Viewport Float)) (c : Controller)
    (modules : List Module) : Outcome :=
  let c := { c with modules, popup := .closed, generation := c.generation + 1 }
  if c.active then c.attempt cfg surface ⟨c.generation, 0⟩ else c.idle

def startRefresh (c : Controller) : Outcome :=
  let number := c.refreshes + 1
  ⟨{ c with refreshes := number }, [.call (.fetch number)], none⟩

/-- Takes note of a fetch that came to its end. -/
def fetched (cfg : Config) (surface : Except Failure (Viewport Float)) (c : Controller)
    (refresh : Nat) (result : Except Failure (List Module)) : Outcome :=
  if refresh ≠ c.refreshes then c.idle
  else
    match result with
    | .error failure => c.fail "Failed to load modules" failure
    | .ok modules => c.recompute cfg surface modules

/-- Takes note of an edit that came to its end, and refreshes unless it failed. -/
def edited (c : Controller) (context rejection : Text) (result : Except Failure Bool) : Outcome :=
  match result with
  | .error failure => c.fail context failure
  | .ok true => c.startRefresh
  | .ok false =>
    let next := c.startRefresh
    { next with effects := .log ⟨.warn, [rejection]⟩ :: next.effects }

/-- The popup after a click on a node of the layout: closed if it was open on that node, else opened
beside it. -/
def popupAfterClick (cfg : Config) (layout : Layout Float) (popup : Popup) (node : Node Float) :
    Popup :=
  if popup.isOpenOn node.module.name then .closed
  else
    .opened node.module.name node.center
      (Placement.place node.center layout.hexSize layout.surface cfg.popupSize)

/-- A click on a name: nothing unless the layout has a node of that name. -/
def clickNode (cfg : Config) (c : Controller) (name : Text) : Outcome :=
  match c.layout with
  | none => c.idle
  | some layout =>
    match layout.find? name with
    | none => c.idle
    | some node => { c with popup := popupAfterClick cfg layout c.popup node }.drawLayout layout

/-- A click outside of nodes and popup closes the popup. -/
def clickOutside (c : Controller) : Outcome :=
  match c.popup with
  | .closed => c.idle
  | .opened _ _ _ =>
    let c := { c with popup := .closed }
    match c.layout with
    | none => c.idle
    | some layout => c.drawLayout layout

/-- What comes of an event.  `surface` is what measuring would give now. -/
def step (cfg : Config) (surface : Except Failure (Viewport Float)) (c : Controller) :
    Event → Outcome
  | .recompute modules => c.recompute cfg surface modules
  | .resize => if c.active then c.recompute cfg surface c.modules else c.idle
  | .activate => { c with active := true }.recompute cfg surface c.modules
  | .deactivate => { c with active := false, popup := .closed, generation := c.generation + 1 }.idle
  | .clickNode name => c.clickNode cfg name
  | .clickOutside => c.clickOutside
  | .retry retry => c.attempt cfg surface retry
  | .refresh => c.startRefresh
  | .toggle name => ⟨c, [.call (.toggle name)], none⟩
  | .save name typed => ⟨c, [.call (.update name typed.ofTyped)], none⟩
  | .fetched refresh result => c.fetched cfg surface refresh result
  | .toggled name result =>
    c.edited ("Failed to toggle \"" ++ name ++ "\"") ("Toggle of \"" ++ name ++ "\" was rejected")
      result
  | .saved name result =>
    c.edited ("Failed to save \"" ++ name ++ "\"") ("Update of \"" ++ name ++ "\" was rejected")
      result

end Honeycomb.Controller
