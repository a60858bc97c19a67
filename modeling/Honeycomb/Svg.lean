import Honeycomb.Layout
import Honeycomb.Palette
import Honeycomb.Hexagon
import Honeycomb.Text.Markup

/-!
# Layouts as pictures

A layout as a standalone picture: first the links, a line each, then the nodes, a group each with
its hexagon and two lines of text.  Names are escaped; positions are rounded to hundredths.
-/

set_option autoImplicit false

namespace Honeycomb.Svg

def lineHeight : Float := 14

def position (x : Float) : Text := numberText (hundredths x)

def attr (name value : Text) : Text := " " ++ name ++ "=\"" ++ value ++ "\""

def header (surface : Viewport Float) : Text :=
  let width := numberText surface.width
  let height := numberText surface.height
  "<svg" ++ attr "xmlns" "http://www.w3.org/2000/svg" ++ attr "width" width ++
    attr "height" height ++ attr "viewBox" ("0 0 " ++ width ++ " " ++ height) ++ ">"

def line (link : Link Float) : Text :=
  "    <line" ++ attr "x1" (position link.source.x) ++ attr "y1" (position link.source.y) ++
    attr "x2" (position link.target.x) ++ attr "y2" (position link.target.y) ++
    attr "stroke" (Palette.solid (Palette.ofLink link.enabled)) ++
    attr "stroke-width" (numberText Palette.linkWidth) ++
    attr "stroke-opacity" (numberText Palette.linkOpacity) ++
    attr "stroke-dasharray" Palette.linkDashes ++ "/>"

def nodeLines (hexSize : Float) (node : Node Float) : List Text :=
  let ink := Palette.ofCategory node.category
  let textFill := Palette.solid ink.text
  let x := node.center.x
  let y := node.center.y
  ["    <g" ++ attr "class" "hex-node" ++
     attr "data-name" (Text.Markup.escape node.module.name) ++ ">",
   "      <polygon" ++ attr "points" (Hexagon.pointsText node.center hexSize) ++
     attr "fill" (Palette.solid ink.fill) ++ "/>",
   "      <text" ++ attr "x" (position x) ++ attr "y" (position y) ++ attr "fill" textFill ++
     attr "font-size" "11" ++ attr "font-weight" "600" ++ attr "text-anchor" "middle" ++ ">" ++
     Text.Markup.escape node.module.label ++ "</text>",
   "      <text" ++ attr "x" (position x) ++ attr "y" (position (y + lineHeight)) ++
     attr "fill" textFill ++ attr "font-size" "10" ++ attr "text-anchor" "middle" ++ ">" ++
     node.category.word ++ "</text>",
   "    </g>"]

def group (className : Text) (inside : List Text) : List Text :=
  ("  <g" ++ attr "class" className ++ ">") :: inside.concat "  </g>"

def lines (layout : Layout Float) : List Text :=
  header layout.surface ::
    (group "links" (layout.links.map line) ++
      group "nodes" (layout.nodes.flatMap (nodeLines layout.hexSize))).concat "</svg>"

/-- The picture of a layout. -/
def render (layout : Layout Float) : Text := Text.intercalate "\n" (lines layout)

end Honeycomb.Svg
