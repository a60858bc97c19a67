import Honeycomb.Module.Order

/-!
# A store of modules

Modules kept in memory.  A toggle flips any module but a core one; an update sets some settings of a
module.  Both act on the first module of a name and say whether they did.
-/

set_option autoImplicit false

namespace Honeycomb

/-- The modules kept. -/
structure Store where
  modules : List Module
deriving DecidableEq

namespace Store

def fetch (s : Store) : List Module := Module.sort s.modules

def find? (s : Store) (name : Text) : Option Module := s.modules.find? (·.name == name)

def modifyFirst (name : Text) (f : Module → Module) : List Module → List Module
  | [] => []
  | m :: ms => if m.name == name then f m :: ms else m :: modifyFirst name f ms

def modify (s : Store) (name : Text) (f : Module → Module) : Store :=
  ⟨modifyFirst name f s.modules⟩

/-- Flips a module that is not core. -/
def toggle (s : Store) (name : Text) : Bool × Store :=
  match s.find? name with
  | none => (false, s)
  | some m =>
    if m.isCore then (false, s)
    else (true, s.modify name fun m => { m with enabled := !m.enabled })

def update (s : Store) (name : Text) (fields : Fields Setting) : Bool × Store :=
  match s.find? name with
  | none => (false, s)
  | some _ => (true, s.modify name fun m => { m with settings := m.settings.merge fields })

end Store

end Honeycomb
