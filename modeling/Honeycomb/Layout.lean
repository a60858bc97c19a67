import Honeycomb.Grid.Spiral
import Honeycomb.Grid.Fit
import Honeycomb.Module.Basic

/-!
# Layouts

Modules are laid out along the spiral, the first one at the origin, at the size that fits the
surface, and the whole is centred.  Every other node is linked to the first one.

`Layout.ofModules` fails only when the geometry does: a centre that is no finite position.
-/

set_option autoImplicit false

namespace Honeycomb

/-- A module at its place. -/
structure Node (α : Type) where
  module : Module
  place : Axial α
  center : Point α
  category : Category
deriving DecidableEq

/-- A line from the first node to another one. -/
structure Link (α : Type) where
  source : Point α
  target : Point α
  name : Text
  enabled : Bool
deriving DecidableEq

structure Layout (α : Type) where
  nodes : List (Node α)
  links : List (Link α)
  hexSize : α
  surface : Viewport α
deriving DecidableEq

inductive LayoutError (α : Type)
  | notFinite (name : Text) (center : Point α)
deriving DecidableEq

def LayoutError.message : LayoutError Float → Text
  | .notFinite name center =>
    "non-finite position for module \"" ++ name ++ "\" (" ++ numberText center.x ++ ", " ++
      numberText center.y ++ ")"

namespace Layout

variable {α : Type} [Scalar α]

/-- How far the centre of a box lies from the centre of a surface. -/
def offset (surface : Viewport α) (box : Bounds α) : Point α :=
  { x := surface.width / Scalar.ofInt 2 - (box.minX + box.maxX) / Scalar.ofInt 2
    y := surface.height / Scalar.ofInt 2 - (box.minY + box.maxY) / Scalar.ofInt 2 }

/-- The centres of hexagons of a size at some places, the whole centred in a surface. -/
def centers (surface : Viewport α) (size : α) (places : List (Axial α)) : List (Point α) :=
  let projected := places.map (Axial.project size)
  let shift := offset surface (Bounds.ofHexagons size projected)
  projected.map fun p => ⟨p.x + shift.x, p.y + shift.y⟩

def places (count : Nat) : List (Axial α) := (Spiral.positions count).map Axial.cast

/-- A module at a place and centre, if the centre is a position. -/
def node (m : Module) (place : Axial α) (center : Point α) : Except (LayoutError α) (Node α) :=
  if Scalar.isFinite center.x && Scalar.isFinite center.y then
    .ok { module := m, place, center, category := m.category }
  else .error (.notFinite m.name center)

def nodesOf : List Module → List (Axial α) → List (Point α) → Except (LayoutError α) (List (Node α))
  | m :: ms, a :: as, c :: cs =>
    match node m a c with
    | .error e => .error e
    | .ok n =>
      match nodesOf ms as cs with
      | .error e => .error e
      | .ok ns => .ok (n :: ns)
  | _, _, _ => .ok []

/-- The links from the first node to the others. -/
def linksOf : List (Node α) → List (Link α)
  | [] => []
  | first :: rest =>
    rest.map fun n =>
      { source := first.center, target := n.center, name := n.module.name,
        enabled := n.module.enabled }

variable [DecidableLE α]

/-- The layout of modules on a surface with some padding. -/
def ofModules (modules : List Module) (surface : Viewport α) (padding : α) :
    Except (LayoutError α) (Layout α) :=
  match modules with
  | [] => .ok { nodes := [], links := [], hexSize := Scalar.ofInt HexSize.largest, surface }
  | _ :: _ =>
    let places : List (Axial α) := places modules.length
    let hexSize := HexSize.choose places surface padding
    match nodesOf modules places (centers surface hexSize places) with
    | .error e => .error e
    | .ok nodes => .ok { nodes, links := linksOf nodes, hexSize, surface }

omit [Scalar α] [DecidableLE α] in
def find? (layout : Layout α) (name : Text) : Option (Node α) :=
  layout.nodes.find? (·.module.name == name)

omit [Scalar α] [DecidableLE α] in
def names (layout : Layout α) : List Text := layout.nodes.map (·.module.name)

end Layout

end Honeycomb
