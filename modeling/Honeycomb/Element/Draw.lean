import Honeycomb.Element.Basic
import Honeycomb.View
import Honeycomb.Palette
import Honeycomb.Hexagon
import Honeycomb.Module.Order

/-!
# Drawing views as elements

`Element.drawView` fills a container with a view: a layout with its links, nodes and popup, or a
message.  What the container held before is gone.  `held` says what the inputs of the document hold
of a text that is set as their value.
-/

set_option autoImplicit false

namespace Honeycomb.Element

def pixels (x : Float) : Text := numberText x ++ "px"

def ofLink (link : Link Float) : Element :=
  drawing "line"
    [("x1", numberText link.source.x), ("y1", numberText link.source.y),
     ("x2", numberText link.target.x), ("y2", numberText link.target.y),
     ("stroke", Palette.ofLink link.enabled), ("stroke-width", numberText Palette.linkWidth),
     ("stroke-opacity", numberText Palette.linkOpacity), ("stroke-dasharray", Palette.linkDashes),
     ("data-target", link.name)]

/-- The hexagon of a node, as a drawing of its own. -/
def hexagon (hexSize : Float) (fill : Text) : Element :=
  let box := Hexagon.box hexSize
  let width := numberText box.width
  let height := numberText box.height
  (drawing "svg"
    [("width", width), ("height", height),
     ("viewBox", "0 0 " ++ width ++ " " ++ height)]).withChildren
    [drawing "polygon"
      [("points", Hexagon.pointsText ⟨box.width / 2, box.height / 2⟩ hexSize),
       ("fill", fill), ("stroke", "none")]]

/-- A node: its hexagon, its label and its category.  A click anywhere in it opens its popup. -/
def ofNode (hexSize : Float) (node : Node Float) : Element :=
  let box := Hexagon.box hexSize
  let ink := Palette.ofCategory node.category
  ((html "div" [("class", "hex-node"), ("data-name", node.module.name)]).withStyle
    [("left", pixels (node.center.x - box.width / 2)),
     ("top", pixels (node.center.y - box.height / 2)),
     ("width", pixels box.width), ("height", pixels box.height)]).withChildren
    [hexagon hexSize ink.fill,
     ((ofClass "div" "hex-label").withStyle [("color", ink.text)]).withText node.module.label,
     ((ofClass "div" "hex-status").withStyle [("color", ink.text)]).withText node.category.word]
  |>.withAction (.openNode node.module.name)

def toggleRow (m : Module) : Element :=
  (ofClass "div" "toggle-row").withChildren
    [(ofClass "span" "toggle-label").withText "Enabled",
     ((ofClass "div" (if m.enabled then "toggle-switch on" else "toggle-switch")).withChildren
       [ofClass "div" "knob"]).withAction (.toggle m.name)]

def field (held : Text → Text) (m : Module) (key : Text) : Element :=
  (ofClass "div" "field").withChildren
    [(html "label" []).withText key,
     input held key (((m.settings.get? key).map Setting.shown).getD "")]

def button (className label : Text) (action : Action) : Element :=
  ((html "button" [("class", className), ("type", "button")]).withText label).withAction action

/-- The popup of a module at a position: a title, the toggle of a module that is not core, a field
for every setting and the buttons. -/
def ofPopup (held : Text → Text) (m : Module) (position : Point Float) : Element :=
  let keys := m.sortedKeys
  let toggle := if m.isCore then [] else [toggleRow m]
  let save := if keys.isEmpty then [] else [button "btn primary save-btn" "Save" (.save m.name)]
  ((html "div" [("class", "hex-popup show"), ("data-name", m.name)]).withStyle
    [("left", pixels position.x), ("top", pixels position.y)]).withChildren
    ((html "h3" []).withText m.name :: toggle ++ keys.map (field held m) ++
      [(ofClass "div" "popup-actions").withChildren
        (save ++ [button "btn cancel-btn" "Cancel" .cancel])])

/-- A layout: the links below, the nodes above. -/
def ofLayout (layout : Layout Float) : Element :=
  (ofClass "div" "hex-wrap").withChildren
    [(drawing "svg" [("class", "hex-svg")]).withChildren (layout.links.map ofLink),
     (ofClass "div" "hex-nodes").withChildren (layout.nodes.map (ofNode layout.hexSize))]

/-- A line of text in place of a layout or above it. -/
def message (className color text : Text) : Element :=
  ((ofClass "div" className).withStyle [("color", color)]).withText text

/-- The popup of a layout, if it is open on one of the nodes. -/
def popupIn (held : Text → Text) (layout : Layout Float) : Popup → List Element
  | .closed => []
  | .opened name _ position =>
    match layout.find? name with
    | none => []
    | some node => [ofPopup held node.module position]

def ofView (held : Text → Text) (view : View) : List Element :=
  match view with
  | .layout layout popup => ofLayout layout :: popupIn held layout popup
  | .error text previous =>
    (previous.map ofLayout).toList ++ [message "hex-error" Palette.error text]
  | _ => [message "hex-placeholder" Palette.muted (view.placeholder?.getD "")]

def drawView (container : Element) (held : Text → Text) (view : View) : Element :=
  container.withChildren (ofView held view)

end Honeycomb.Element
