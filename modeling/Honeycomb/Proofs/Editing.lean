import Honeycomb.Layout
import Honeycomb.Service.Store
import Honeycomb.Proofs.Module.Order

/-!
# Editing never moves a node

An edit of a store changes the flag or the settings of one module.  What it may change is taken off
by `bare`, from a module and from whatever a layout shows of it.

* `modules_run_bare` — however many edits are made, the modules of a store are the same but for
  what an edit may change.
* `ofModules_bare` — laying out and taking off what edits may change can be done in either order,
  also where the layout fails.
* `toOption_ofModules` — the geometry of a layout is a function of the number of modules, the
  surface and the padding.
* `editing_keeps_layout` — so a store's modules keep their names, core flags and order, and their
  nodes and links keep their places.
-/

set_option autoImplicit false

namespace Honeycomb

/-! ## Edits of a store -/

/-- An edit of a store. -/
inductive Edit
  | toggle (name : Text)
  | update (name : Text) (fields : Fields Setting)

/-- A module without what an edit may change. -/
def Module.bare (m : Module) : Module := { m with enabled := false, settings := [] }

namespace Store

/-- Whether an edit is accepted, and the store afterwards. -/
def edit (s : Store) : Edit → Bool × Store
  | .toggle name => s.toggle name
  | .update name fields => s.update name fields

/-- The store after some edits, accepted or not. -/
def run (s : Store) (edits : List Edit) : Store := edits.foldl (fun s e => (s.edit e).2) s

theorem modules_modify_bare (s : Store) (name : Text) {f : Module → Module}
    (hf : ∀ m, (f m).bare = m.bare) :
    (s.modify name f).modules.map Module.bare = s.modules.map Module.bare := by
  show (modifyFirst name f s.modules).map Module.bare = _
  induction s.modules with
  | nil => rfl
  | cons m ms ih =>
    rw [modifyFirst]
    split
    · simp [hf]
    · simp [ih]

theorem modules_edit_bare (s : Store) (e : Edit) :
    (s.edit e).2.modules.map Module.bare = s.modules.map Module.bare := by
  cases e with
  | toggle name =>
    simp only [edit, toggle]
    split
    · rfl
    · split
      · rfl
      · apply modules_modify_bare
        intro m
        rfl
  | update name fields =>
    simp only [edit, update]
    split
    · rfl
    · apply modules_modify_bare
      intro m
      rfl

/-- **Edits change nothing but flags and settings.** -/
theorem modules_run_bare (s : Store) (edits : List Edit) :
    (s.run edits).modules.map Module.bare = s.modules.map Module.bare := by
  induction edits generalizing s with
  | nil => rfl
  | cons e edits ih =>
    have hrest : ((s.edit e).2.run edits).modules.map Module.bare =
        (s.edit e).2.modules.map Module.bare := ih (s.edit e).2
    exact hrest.trans (modules_edit_bare s e)

/-- What is fetched changes as little. -/
theorem fetch_run_bare (s : Store) (edits : List Edit) :
    (s.run edits).fetch.map Module.bare = s.fetch.map Module.bare := by
  have hsort : ∀ ms : List Module, (Module.sort ms).map Module.bare = Module.sort (ms.map .bare) :=
    Module.sort_map (fun _ => rfl) (fun _ => rfl)
  rw [fetch, fetch, hsort, hsort, modules_run_bare]

end Store

/-! ## Layouts -/

section Layouts

variable {α : Type}

/-- A node without what an edit of its module may change. -/
def Node.bare (n : Node α) : Node α :=
  { n with module := n.module.bare, category := n.module.bare.category }

/-- A link without what an edit of its target may change. -/
def Link.bare (l : Link α) : Link α := { l with enabled := false }

namespace Layout

/-- A layout without what edits of its modules may change. -/
def bare (layout : Layout α) : Layout α :=
  { layout with nodes := layout.nodes.map Node.bare, links := layout.links.map Link.bare }

/-- The place and the centre of a node. -/
def spot (n : Node α) : Axial α × Point α := (n.place, n.center)

/-- The size of the hexagons of a layout, and their places and centres in order. -/
def geometry (layout : Layout α) : α × List (Axial α × Point α) :=
  (layout.hexSize, layout.nodes.map spot)

theorem linksOf_bare (nodes : List (Node α)) :
    linksOf (nodes.map Node.bare) = (linksOf nodes).map Link.bare := by
  cases nodes with
  | nil => rfl
  | cons first rest => simp [linksOf, Node.bare, Link.bare, Module.bare]

variable [Scalar α]

theorem node_bare (m : Module) (place : Axial α) (center : Point α) :
    node m.bare place center = (node m place center).map Node.bare := by
  unfold node
  split <;> rfl

theorem nodesOf_bare (ms : List Module) (places : List (Axial α)) (centers : List (Point α)) :
    nodesOf (ms.map Module.bare) places centers =
      (nodesOf ms places centers).map (List.map Node.bare) := by
  induction ms generalizing places centers with
  | nil => rfl
  | cons m ms ih =>
    cases places with
    | nil => rfl
    | cons a places =>
    cases centers with
    | nil => rfl
    | cons c centers =>
      rw [List.map_cons, nodesOf, nodesOf, node_bare, ih]
      cases node m a c with
      | error e => rfl
      | ok n => cases nodesOf ms places centers <;> rfl

/-- Whether a node can be made depends on its centre alone. -/
theorem toOption_node (m m' : Module) (a : Axial α) (c : Point α) :
    (node m a c).toOption.map spot = (node m' a c).toOption.map spot := by
  unfold node
  split <;> rfl

theorem toOption_nodesOf_cons (m : Module) (ms : List Module) (a : Axial α) (as : List (Axial α))
    (c : Point α) (cs : List (Point α)) :
    (nodesOf (m :: ms) (a :: as) (c :: cs)).toOption.map (List.map spot) =
      ((node m a c).toOption.map spot).bind fun n =>
        ((nodesOf ms as cs).toOption.map (List.map spot)).map (n :: ·) := by
  rw [nodesOf]
  cases node m a c with
  | error e => rfl
  | ok n => cases nodesOf ms as cs <;> rfl

theorem toOption_nodesOf {ms ms' : List Module} (h : ms.length = ms'.length)
    (places : List (Axial α)) (centers : List (Point α)) :
    (nodesOf ms places centers).toOption.map (List.map spot) =
      (nodesOf ms' places centers).toOption.map (List.map spot) := by
  induction ms generalizing ms' places centers with
  | nil =>
    obtain rfl := List.length_eq_zero_iff.mp h.symm
    rfl
  | cons m ms ih =>
    obtain ⟨m', ms', rfl⟩ := List.exists_cons_of_length_eq_add_one h.symm
    cases places with
    | nil => rfl
    | cons a places =>
    cases centers with
    | nil => rfl
    | cons c centers =>
      have hrest := ih (Nat.succ.inj h) places centers
      rw [toOption_nodesOf_cons, toOption_nodesOf_cons, toOption_node m m', hrest]

variable [DecidableLE α]

theorem ofModules_of_ne_nil {ms : List Module} (hne : ms ≠ []) (surface : Viewport α)
    (padding : α) :
    ofModules ms surface padding =
      (nodesOf ms (places ms.length)
        (centers surface (HexSize.choose (places ms.length) surface padding)
          (places ms.length))).map fun nodes =>
        ⟨nodes, linksOf nodes, HexSize.choose (places ms.length) surface padding, surface⟩ := by
  cases ms with
  | nil => exact absurd rfl hne
  | cons m ms =>
    rw [ofModules]
    cases nodesOf (α := α) (m :: ms) _ _ <;> rfl

/-- **Taking off what edits may change can be done before or after the layout**, also where the
layout fails. -/
theorem ofModules_bare (ms : List Module) (surface : Viewport α) (padding : α) :
    ofModules (ms.map Module.bare) surface padding =
      (ofModules ms surface padding).map bare := by
  by_cases hne : ms = []
  · subst hne
    rfl
  · have hne' : ms.map Module.bare ≠ [] := by simpa using hne
    rw [ofModules_of_ne_nil hne, ofModules_of_ne_nil hne', List.length_map, nodesOf_bare]
    cases nodesOf (α := α) ms _ _ with
    | error e => rfl
    | ok nodes =>
      simp only [Except.map, linksOf_bare]
      rfl

/-- **The geometry is a function of the number of modules**, the surface and the padding. -/
theorem toOption_ofModules {ms ms' : List Module} (h : ms.length = ms'.length)
    (surface : Viewport α) (padding : α) :
    (ofModules ms surface padding).toOption.map geometry =
      (ofModules ms' surface padding).toOption.map geometry := by
  by_cases hne : ms = []
  · subst hne
    obtain rfl := List.length_eq_zero_iff.mp h.symm
    rfl
  · have hne' : ms' ≠ [] := by
      rintro rfl
      exact hne (List.length_eq_zero_iff.mp h)
    -- of the nodes only their spots go into the geometry
    have hspots : ∀ (nodes : Except (LayoutError α) (List (Node α))) (size : α),
        (nodes.map fun nodes => (⟨nodes, linksOf nodes, size, surface⟩ : Layout α)).toOption.map
            geometry =
          (nodes.toOption.map (List.map spot)).map fun spots => (size, spots) := by
      intro nodes size
      cases nodes <;> rfl
    rw [ofModules_of_ne_nil hne, ofModules_of_ne_nil hne', hspots, hspots, h,
      toOption_nodesOf h]

end Layout

end Layouts

/-! ## Editing -/

/-- **Editing never moves a node.**  After any edits a store lists the same names and core flags in
the same order.  Whatever the surface and the padding are, its modules can be laid out exactly if
they could before, and the layouts are the same but for flags, categories and settings.  What the
size, places and centres are depends on nothing but how many modules there are. -/
theorem editing_keeps_layout {α : Type} [Scalar α] [DecidableLE α] (s : Store)
    (edits : List Edit) :
    (s.run edits).fetch.map (fun m => (m.name, m.isCore)) =
        s.fetch.map (fun m => (m.name, m.isCore)) ∧
      (∀ (surface : Viewport α) (padding : α),
        (Layout.ofModules (s.run edits).fetch surface padding).map Layout.bare =
          (Layout.ofModules s.fetch surface padding).map Layout.bare) ∧
      ∃ geometryOf : Nat → Viewport α → α → Option (α × List (Axial α × Point α)),
        ∀ (ms : List Module) (surface : Viewport α) (padding : α),
          (Layout.ofModules ms surface padding).toOption.map Layout.geometry =
            geometryOf ms.length surface padding := by
  have hbare := s.fetch_run_bare edits
  refine ⟨?_, ?_, ?_⟩
  · have hkeys := congrArg (List.map fun m => (m.name, m.isCore)) hbare
    simpa [Module.bare, Function.comp_def] using hkeys
  · intro surface padding
    rw [← Layout.ofModules_bare, ← Layout.ofModules_bare, hbare]
  · -- any list of the right length shows what the geometry is
    let blank : Module := ⟨"", false, false, []⟩
    refine ⟨fun count (surface : Viewport α) (padding : α) =>
      (Layout.ofModules (List.replicate count blank) surface padding).toOption.map
        Layout.geometry, ?_⟩
    intro ms surface padding
    apply Layout.toOption_ofModules
    rw [List.length_replicate]

end Honeycomb
