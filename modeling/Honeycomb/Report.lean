import Honeycomb.Layout
import Honeycomb.Decimal.Rounding
import Honeycomb.Json.Printer

/-!
# Layouts as data

The computed layout as a JSON value: the size, the surface, the nodes with their places and rounded
positions, and the links.
-/

set_option autoImplicit false

namespace Honeycomb.Report

def node (n : Node Float) : Json :=
  .object [("name", .text n.module.name), ("category", .text n.category.word),
    ("enabled", .bool n.module.enabled),
    ("q", .number n.place.q), ("r", .number n.place.r),
    ("x", .number (hundredths n.center.x)), ("y", .number (hundredths n.center.y))]

def link (l : Link Float) : Json := .object [("target", .text l.name), ("enabled", .bool l.enabled)]

def surface (v : Viewport Float) : Json :=
  .object [("width", .number v.width), ("height", .number v.height)]

def ofLayout (layout : Layout Float) : Json :=
  .object [("hexSize", .number layout.hexSize), ("viewport", surface layout.surface),
    ("nodes", .array (layout.nodes.map node)), ("links", .array (layout.links.map link))]

end Honeycomb.Report
