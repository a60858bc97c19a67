import Honeycomb.Setting
import Honeycomb.Fields

/-!
# Modules

A module is one node of the grid: a name, whether it is on, whether it is part of the core, and its
settings.  Settings are edited as texts; `Fields.ofTyped` reads a whole form.
-/

set_option autoImplicit false

namespace Honeycomb

structure Module where
  name : Text
  enabled : Bool
  isCore : Bool
  settings : Fields Setting
deriving DecidableEq

/-- How a module is shown. -/
inductive Category
  | core
  | on
  | off
deriving DecidableEq, Repr

def Category.word : Category → Text
  | .core => "core"
  | .on => "on"
  | .off => "off"

namespace Module

/-- A core module is shown as such, whether on or off. -/
def category (m : Module) : Category :=
  if m.isCore then .core else if m.enabled then .on else .off

/-- A name as it is shown: underscores become blanks. -/
def labelOf (name : Text) : Text :=
  ⟨name.units.map fun u => if u = Text.unit '_' then Text.unit ' ' else u⟩

def label (m : Module) : Text := labelOf m.name

end Module

/-- The settings that typed texts stand for. -/
def Fields.ofTyped (fields : Fields Text) : Fields Setting :=
  (Fields.withoutReserved fields).mapValues Setting.ofTyped

end Honeycomb
