import Honeycomb.Module.Basic
import Honeycomb.Text.Order

/-!
# The order of modules

Core modules come first; within each group names ascend by their sixteen-bit units.  Modules that
tie keep their order.  Setting keys are listed in the same order of texts.
-/

set_option autoImplicit false

namespace Honeycomb.Module

/-- Whether a module comes before another one or ties with it. -/
def inOrder (a b : Module) : Bool :=
  if a.isCore == b.isCore then Text.inOrder a.name b.name else a.isCore

def sort (ms : List Module) : List Module := ms.mergeSort inOrder

def sortedKeys (m : Module) : List Text := m.settings.keys.mergeSort Text.inOrder

end Honeycomb.Module
