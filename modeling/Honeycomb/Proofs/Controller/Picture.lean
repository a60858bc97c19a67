import Honeycomb.Proofs.Controller.Popup

/-!
# What was drawn last agrees with the controller

A view is drawn from a controller's layout and popup, and both may change afterwards: hiding closes
the popup, and a recompute of a hidden controller replaces the modules, without a view.

* `Controller.Pictured` — the view drawn last says what the controller knows.
* `pictured_step` — an active controller keeps this, as far as the surface can be measured: whatever
  changes layout or popup draws a view as well, or else hides the controller; and what activates it
  draws a view from scratch.
* `view_agrees` — so the view drawn last agrees with every active controller that a run comes to,
  and an open popup has a layout under it, whether the controller is active or not.
-/

set_option autoImplicit false

namespace Honeycomb

namespace Controller

/-- The view drawn last says what the controller knows: a layout view holds its layout and popup, an
error view the layout under it, and the empty view stands for no modules at all. -/
def Pictured (c : Controller) : Prop :=
  match c.view with
  | some (.layout layout popup) => c.layout = some layout ∧ c.popup = popup
  | some (.error _ previous) => c.layout = previous ∧ c.popup = .closed
  | some .empty => c.modules = [] ∧ c.layout = none ∧ c.popup = .closed
  | some (.waiting _ _) | some (.unavailable _) | none => True

variable {cfg : Config} {surface : Except Failure (Viewport Float)} {c : Controller}

/-- An attempt that is due draws a view, if the surface can be measured. -/
theorem pictured_attempt {v : Viewport Float} {r : Retry} (measured : surface = .ok v)
    (due : r.generation = c.generation) (blank : c.modules = [] → c.popup = .closed) :
    (c.attempt cfg surface r).controller.Pictured := by
  have h := attempt_spec cfg surface c r
  generalize c.attempt cfg surface r = o at h ⊢
  cases h with
  | stale old => exact absurd due old
  | empty _ none => exact ⟨none, rfl, blank none⟩
  | unmeasured _ _ fault =>
    rw [measured] at fault
    cases fault
  | laidOut => exact ⟨rfl, rfl⟩
  | refused => exact ⟨rfl, rfl⟩
  | waiting => trivial
  | unavailable => trivial

/-- **The picture of an active controller stays right**, whatever it is told of while the surface
can be measured. -/
theorem pictured_step {v : Viewport Float} {event : Event} (measured : surface = .ok v)
    (hpicture : c.active = true → c.Pictured)
    (hlayout : c.popup ≠ .closed → c.layout.isSome = true)
    (hlive : ∀ r, event = .retry r → r.generation = c.generation → c.modules ≠ [])
    (hactive : (c.step cfg surface event).controller.active = true) :
    (c.step cfg surface event).controller.Pictured := by
  have h := step_spec cfg surface c event
  generalize c.step cfg surface event = o at h hactive ⊢
  cases h with
  | ignored => exact hpicture hactive
  | retried due =>
    apply pictured_attempt measured due
    intro hnone
    exact absurd hnone (hlive _ rfl due)
  | redrawn =>
    apply pictured_attempt measured rfl
    intro _
    rfl
  | stored _ hidden =>
    -- the modules were replaced without a view, but the controller is hidden
    rw [show c.active = true from hactive] at hidden
    cases hidden
  | deactivated => cases hactive
  | clicked there => exact ⟨there, rfl⟩
  | dismissed there => exact ⟨there, rfl⟩
  | dismissedBare opened bare =>
    have hsome := hlayout opened
    rw [bare] at hsome
    cases hsome
  | failed => exact ⟨rfl, rfl⟩
  | toggle => exact hpicture hactive
  | save => exact hpicture hactive
  | refreshed => exact hpicture hactive
  | declined => exact hpicture hactive

end Controller

theorem History.pictured_run (cfg : Controller.Config) (turns : List (Turn Event))
    (hmeasured : ∀ t ∈ (run cfg turns).told, ∃ v, t.surface = .ok v) :
    (run cfg turns).host.controller.active = true →
      (run cfg turns).host.controller.Pictured := by
  refine (run_induction (P := fun x => x.host.PopupInv ∧
    ((∀ t ∈ x.told, ∃ v, t.surface = .ok v) →
      x.host.controller.active = true → x.host.controller.Pictured))
    ⟨.start, fun _ _ => trivial⟩ ?_ ?_ turns).2 hmeasured
  · intro x i f ending hf hx _ _
    exact ⟨⟨⟨hx.1.queue.bounded, hx.1.queue.live⟩, hx.1.layout⟩, hx.2⟩
  · intro x surface event rest hx ho
    refine ⟨hx.1.tell ho, ?_⟩
    intro hall hactive
    obtain ⟨v, hv⟩ := hall ⟨x.host.controller, surface, event⟩
      (List.mem_append_right _ (List.mem_singleton.mpr rfl))
    refine Controller.pictured_step hv ?_ hx.1.layout (ho.live hx.1.queue) hactive
    exact hx.2 fun t ht => hall t (List.mem_append_left _ ht)

/-- **What was drawn last agrees with the controller.**  As long as measuring the surface does not
fail, the view drawn last agrees with every active controller that a run comes to: a layout view
shows its layout and its popup, an error view the layout from before and no popup, and the empty
view that there are no modules, no layout and no popup.  And whatever measuring gives, an open popup
has a layout under it, in an active controller as in a hidden one. -/
theorem view_agrees (cfg : Controller.Config) (turns : List (Turn Event)) :
    ((∀ turn ∈ turns, ∃ v, turn.surface = .ok v) →
      (History.run cfg turns).host.controller.active = true →
        (∀ layout popup, (History.run cfg turns).host.controller.view =
            some (.layout layout popup) →
          (History.run cfg turns).host.controller.layout = some layout ∧
            (History.run cfg turns).host.controller.popup = popup) ∧
        (∀ message previous, (History.run cfg turns).host.controller.view =
            some (.error message previous) →
          (History.run cfg turns).host.controller.layout = previous ∧
            (History.run cfg turns).host.controller.popup = .closed) ∧
        ((History.run cfg turns).host.controller.view = some .empty →
          (History.run cfg turns).host.controller.modules = [] ∧
            (History.run cfg turns).host.controller.layout = none ∧
            (History.run cfg turns).host.controller.popup = .closed)) ∧
      ((History.run cfg turns).host.controller.popup ≠ .closed →
        (History.run cfg turns).host.controller.layout.isSome = true) := by
  refine ⟨?_, (History.popupInv_run turns).layout⟩
  intro hmeasured hactive
  have hpicture := History.pictured_run cfg turns (fun t ht => by
    obtain ⟨turn, hturn, hs⟩ := History.surface_of_mem_told ht
    rw [← hs]
    exact hmeasured turn hturn) hactive
  generalize (History.run cfg turns).host.controller = c at hpicture ⊢
  refine ⟨?_, ?_, ?_⟩
  · intro layout popup hview
    rw [Controller.Pictured, hview] at hpicture
    exact hpicture
  · intro message previous hview
    rw [Controller.Pictured, hview] at hpicture
    exact hpicture
  · intro hview
    rw [Controller.Pictured, hview] at hpicture
    exact hpicture

/-- "a" is drawn, clicked and hidden; "b" takes its place meanwhile, is shown and clicked too. -/
def editedWhileHidden : List (Turn Event) :=
  ([.recompute [⟨"a", true, false, []⟩], .clickNode "a", .deactivate,
    .recompute [⟨"b", true, false, []⟩], .activate, .clickNode "b"] : List Event).map
      fun event => ⟨.ok ⟨1200, 800⟩, .operate event⟩

theorem view_agrees_once_shown :
    (∀ turn ∈ editedWhileHidden, ∃ v, turn.surface = .ok v) ∧
      (History.run .default editedWhileHidden).host.controller.active = true ∧
      ∃ layout popup, layout.names = [("b" : Text)] ∧ popup.name? = some ("b" : Text) ∧
        (History.run .default editedWhileHidden).host.controller.view =
          some (.layout layout popup) ∧
        (History.run .default editedWhileHidden).host.controller.layout = some layout ∧
        (History.run .default editedWhileHidden).host.controller.popup = popup := by
  have hmeasured : ∀ turn ∈ editedWhileHidden, ∃ v, turn.surface = .ok v := by
    simp [editedWhileHidden]
  have hactive : (History.run .default editedWhileHidden).host.controller.active = true := by
    decide +kernel
  have hshown : ((History.run .default editedWhileHidden).host.controller.view.bind fun
      | .layout layout popup => some (layout.names, popup.name?)
      | _ => none) = some ([("b" : Text)], some ("b" : Text)) := by
    decide +kernel
  obtain ⟨hlayout, -⟩ := (view_agrees .default editedWhileHidden).1 hmeasured hactive
  obtain ⟨view, hview, hnames⟩ := Option.bind_eq_some_iff.mp hshown
  cases view with
  | layout layout popup =>
    simp only [Option.some.injEq, Prod.mk.injEq] at hnames
    exact ⟨hmeasured, hactive, layout, popup, hnames.1, hnames.2, hview, hlayout layout popup hview⟩
  | _ => cases hnames

/-- "a" is drawn and clicked, and then the surface cannot be measured when it changes its size. -/
def unmeasuredResize : List (Turn Event) :=
  [⟨.ok ⟨1200, 800⟩, .operate (.recompute [⟨"a", true, false, []⟩])⟩,
   ⟨.ok ⟨1200, 800⟩, .operate (.clickNode "a")⟩,
   ⟨.error (.raised "no surface"), .operate .resize⟩]

-- The popup is closed before the surface is measured, and so the view drawn last still shows it.
example :
    (History.run .default unmeasuredResize).host.controller.popup = .closed ∧
      ((History.run .default unmeasuredResize).host.controller.view.bind fun
        | .layout _ popup => popup.name?
        | _ => none) = some ("a" : Text) := by
  decide +kernel

end Honeycomb
