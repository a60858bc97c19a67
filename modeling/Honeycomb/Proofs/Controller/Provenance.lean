import Honeycomb.Proofs.Controller.Supersession

/-!
# Where modules and layouts come from

A controller never edits what it has: its module list is one that it was brought whole, and its
layout was made from such a list in one go.

* `broughtLast` — the list that was brought last, in some of what a controller was told.
* `Told.Lays` — the controller had its modules laid out on the surface that was measured then, keeps
  the layout and draws it.
* `Leads.modules_eq` and `Leads.layout_from` — the modules are the list brought last, and a layout
  was laid out at some time on the way.
* `layouts_are_rebuilt` — so it is in every run, and neither the start of an edit or a refresh, nor
  its failure, nor a click, nor hiding, nor what a hidden controller is told, nor a layout that
  fails, nor what is out of date changes the layout.
-/

set_option autoImplicit false

namespace Honeycomb

/-- The list that the controller was brought, if it was brought one. -/
def Told.brought? (t : Told) : Option (List Module) := t.before.brings? t.event

/-- The list that was brought last; none at all before the first. -/
def broughtLast (told : List Told) : List Module := (told.filterMap Told.brought?).getLast?.getD []

namespace Controller

/-- In an outcome the modules are laid out on the surface as it was measured, which is large enough;
the layout is kept, and drawn with the popup. -/
structure Outcome.Lays (cfg : Config) (surface : Except Failure (Viewport Float)) (o : Outcome)
    (v : Viewport Float) (layout : Layout Float) : Prop where
  measured : surface = .ok v
  ready : isReady v = true
  laid : Layout.ofModules o.controller.modules v cfg.padding = .ok layout
  kept : o.controller.layout = some layout
  drawn : o.effects.filterMap Effect.view? = [.layout layout o.controller.popup]

/-- In an outcome no layout view is drawn; the layout is the one from before, or there is none, and
no modules either. -/
structure Outcome.Leaves (c : Controller) (o : Outcome) : Prop where
  undrawn : ∀ layout popup, View.layout layout popup ∉ o.effects.filterMap Effect.view?
  layout : o.controller.layout = c.layout ∨
    o.controller.layout = none ∧ o.controller.modules = []

variable {cfg : Config} {surface : Except Failure (Viewport Float)} {c : Controller}

/-- An attempt lays the modules out, or leaves the layout. -/
theorem lays_or_leaves_attempt (cfg : Config) (surface : Except Failure (Viewport Float))
    (c : Controller) (r : Retry) :
    (∃ v layout, (c.attempt cfg surface r).Lays cfg surface v layout) ∨
      (c.attempt cfg surface r).Leaves c := by
  have h := attempt_spec cfg surface c r
  generalize c.attempt cfg surface r = o at h ⊢
  cases h with
  | laidOut _ _ measured ready laid => exact .inl ⟨_, _, measured, ready, laid, rfl, rfl⟩
  | empty _ none => exact .inr ⟨by simp [Effect.view?], .inr ⟨rfl, none⟩⟩
  | stale => exact .inr ⟨by simp, .inl rfl⟩
  | unmeasured => exact .inr ⟨by simp, .inl rfl⟩
  | refused => exact .inr ⟨by simp [fail, Effect.view?], .inl rfl⟩
  | waiting => exact .inr ⟨by simp [Effect.view?], .inl rfl⟩
  | unavailable => exact .inr ⟨by simp [Effect.view?], .inl rfl⟩

/-- **What a step does to the layout**: what asks for a layout has the modules laid out, or leaves
the layout; all else keeps it. -/
theorem lays_or_leaves_step (cfg : Config) (surface : Except Failure (Viewport Float))
    (c : Controller) (event : Event) :
    (event.asksForLayout = true ∧
        ((∃ v layout, (c.step cfg surface event).Lays cfg surface v layout) ∨
          (c.step cfg surface event).Leaves c)) ∨
      (event.asksForLayout = false ∧
        (c.step cfg surface event).controller.layout = c.layout) := by
  cases hasks : event.asksForLayout with
  | true =>
    refine .inl ⟨rfl, ?_⟩
    have h := step_spec cfg surface c event
    generalize c.step cfg surface event = o at h ⊢
    cases h with
    | retried due => exact lays_or_leaves_attempt cfg surface c _
    | redrawn brought shown =>
      rcases lays_or_leaves_attempt cfg surface ({ c with active := true }.renewed _) _ with h | h
      · exact .inl h
      · exact .inr ⟨h.undrawn, h.layout⟩
    | ignored => exact .inr ⟨by simp, .inl rfl⟩
    | stored => exact .inr ⟨by simp, .inl rfl⟩
    | failed ended =>
      rw [ended] at hasks
      cases hasks
    | refreshed starts =>
      rw [(quiet_of_startsRefresh (c := c) starts).1] at hasks
      cases hasks
    | declined starts =>
      rw [(quiet_of_startsRefresh (c := c) starts).1] at hasks
      cases hasks
    | _ => cases hasks
  | false =>
    refine .inr ⟨rfl, ?_⟩
    have h := step_spec cfg surface c event
    generalize c.step cfg surface event = o at h ⊢
    cases h with
    | retried due => cases hasks
    | redrawn brought =>
      rw [asksForLayout_of_redraws? brought] at hasks
      cases hasks
    | _ => rfl

end Controller

namespace Told

variable {cfg : Controller.Config} {t : Told}

/-- The controller was asked for a layout and made one: of its modules, on the surface as it was
measured then. -/
structure Lays (cfg : Controller.Config) (t : Told) (v : Viewport Float) (layout : Layout Float) :
    Prop where
  asked : t.event.asksForLayout = true
  made : (t.outcome cfg).Lays cfg t.surface v layout

/-- What asks for no layout keeps the layout. -/
theorem layout_of_not_asks (hrest : t.event.asksForLayout = false) :
    (t.after cfg).layout = t.before.layout := by
  rcases Controller.lays_or_leaves_step cfg t.surface t.before t.event with ⟨hasks, -⟩ | ⟨-, h⟩
  · rw [hrest] at hasks
    cases hasks
  · exact h

/-- What asks for no layout keeps the modules. -/
theorem modules_of_not_asks (hrest : t.event.asksForLayout = false) :
    (t.after cfg).modules = t.before.modules := by
  rw [after, outcome, Controller.modules_step, Controller.brings?_of_not_asks hrest,
    Option.getD_none]

/-- A layout view that was drawn when a layout was asked for was laid out then. -/
theorem lays_of_drawn {layout : Layout Float} {popup : Popup} (hasks : t.event.asksForLayout = true)
    (hdrawn : .layout layout popup ∈ t.drawn cfg) : ∃ v, t.Lays cfg v layout := by
  rcases Controller.lays_or_leaves_step cfg t.surface t.before t.event with ⟨-, h⟩ | ⟨hnot, -⟩
  · rcases h with ⟨v, layout', hlays⟩ | hleaves
    · rw [drawn, show (t.outcome cfg).effects.filterMap Effect.view? = _ from hlays.drawn,
        List.mem_singleton] at hdrawn
      cases hdrawn
      exact ⟨v, hasks, hlays⟩
    · exact absurd hdrawn (hleaves.undrawn layout popup)
  · rw [hasks] at hnot
    cases hnot

/-- If the modules cannot be laid out on the surface, the layout stays. -/
theorem layout_of_refused {v : Viewport Float} {e : LayoutError Float}
    (hsurface : t.surface = .ok v)
    (hbad : Layout.ofModules (t.after cfg).modules v cfg.padding = .error e) :
    (t.after cfg).layout = t.before.layout := by
  rcases Controller.lays_or_leaves_step cfg t.surface t.before t.event with ⟨-, h⟩ | ⟨-, h⟩
  · rcases h with ⟨v', layout, hlays⟩ | hleaves
    · have hv := hlays.measured
      rw [hsurface] at hv
      cases hv
      rw [after, show Layout.ofModules (t.outcome cfg).controller.modules v cfg.padding = _ from
        hlays.laid] at hbad
      cases hbad
    · rcases hleaves.layout with h | ⟨-, hnone⟩
      · exact h
      · rw [after, show (t.outcome cfg).controller.modules = [] from hnone] at hbad
        cases hbad
  · exact h

end Told

namespace Leads

variable {cfg : Controller.Config} {c c' : Controller} {told : List Told}

/-- **A controller has the list that it was brought last**, or still the one that it began with. -/
theorem modules_eq (h : Leads cfg c told c') :
    c'.modules = (told.filterMap Told.brought?).getLast?.getD c.modules := by
  induction told generalizing c with
  | nil =>
    rw [show c' = c from h]
    rfl
  | cons t told ih =>
    obtain ⟨rfl, hrest⟩ := h
    have hstep := Controller.modules_step cfg t.surface t.before t.event
    rw [ih hrest, show (t.after cfg).modules = _ from hstep]
    rw [← Told.brought?]
    cases hb : t.brought? with
    | none => rw [List.filterMap_cons_none hb, Option.getD_none]
    | some modules =>
      rw [List.filterMap_cons_some hb, List.getLast?_cons, Option.getD_some, Option.getD_some]

/-- **A layout was laid out on the way**, unless it was there from the beginning. -/
theorem layout_from {layout : Layout Float} (h : Leads cfg c told c')
    (hlayout : c'.layout = some layout) :
    c.layout = some layout ∨
      ∃ past t later v, told = past ++ t :: later ∧ t.Lays cfg v layout := by
  induction told generalizing c with
  | nil =>
    rw [show c' = c from h] at hlayout
    exact .inl hlayout
  | cons t told ih =>
    obtain ⟨rfl, hrest⟩ := h
    rcases ih hrest with hafter | ⟨past, u, later, v, rfl, hlays⟩
    · rcases Controller.lays_or_leaves_step cfg t.surface t.before t.event with
        ⟨hasks, hdone⟩ | ⟨-, hsame⟩
      · rcases hdone with ⟨v, layout', hlays⟩ | hleaves
        · have hkept := hafter.symm.trans hlays.kept
          cases hkept
          exact .inr ⟨[], t, told, v, rfl, hasks, hlays⟩
        · rcases hleaves.layout with hsame | ⟨hnone, -⟩
          · exact .inl (hsame.symm.trans hafter)
          · have := hnone.symm.trans hafter
            cases this
      · exact .inl (hsame.symm.trans hafter)
    · exact .inr ⟨t :: past, u, later, v, rfl, hlays⟩

end Leads

/-- **Layouts are rebuilt, never patched.**  In every run the module list is the one that was
brought last.  If there is a layout, it was laid out when a layout was asked for: of the list that
was brought last by then, on the surface as it was measured then.  Each layout view drawn when a
layout is asked for is of the modules that the controller has then, on the surface that was just
measured.  All else keeps the layout and the modules: starting an edit or a refresh, its failure, an
edit that is declined, clicks, and hiding.  The layout stays also while the controller is hidden,
and when the modules cannot be laid out; and nothing comes of a retry or a fetch that is out of
date. -/
theorem layouts_are_rebuilt (cfg : Controller.Config) (turns : List (Turn Event)) :
    (History.run cfg turns).host.controller.modules =
        broughtLast (History.run cfg turns).told ∧
      (∀ layout, (History.run cfg turns).host.controller.layout = some layout →
        ∃ past t later v, (History.run cfg turns).told = past ++ t :: later ∧
          (t.after cfg).modules = broughtLast (past ++ [t]) ∧ t.Lays cfg v layout) ∧
      ∀ t ∈ (History.run cfg turns).told,
        (∀ layout popup, t.event.asksForLayout = true → .layout layout popup ∈ t.drawn cfg →
          ∃ v, t.Lays cfg v layout) ∧
        (t.event.asksForLayout = false →
          (t.after cfg).layout = t.before.layout ∧ (t.after cfg).modules = t.before.modules) ∧
        (t.before.active = false → t.event ≠ .activate →
          (t.after cfg).layout = t.before.layout) ∧
        (∀ v e, t.surface = .ok v →
          Layout.ofModules (t.after cfg).modules v cfg.padding = .error e →
          (t.after cfg).layout = t.before.layout) ∧
        (∀ r, t.event = .retry r → r.generation ≠ t.before.generation →
          t.outcome cfg = t.before.idle) ∧
        (∀ refresh result, t.event = .fetched refresh result → refresh ≠ t.before.refreshes →
          t.outcome cfg = t.before.idle) := by
  have hx := History.retryInv_run cfg turns
  have hleads := History.leads_run cfg turns
  generalize History.run cfg turns = x at hx hleads ⊢
  refine ⟨hleads.modules_eq, ?_, ?_⟩
  · intro layout hlayout
    rcases hleads.layout_from hlayout with h | ⟨past, t, later, v, hsplit, hlays⟩
    · cases h
    · rw [hsplit] at hleads
      exact ⟨past, t, later, v, hsplit, hleads.split.1.concat.modules_eq, hlays⟩
  · intro t ht
    refine ⟨fun layout popup => Told.lays_of_drawn, ?_, ?_, fun v e => Told.layout_of_refused, ?_,
      ?_⟩
    · intro hrest
      exact ⟨Told.layout_of_not_asks hrest, Told.modules_of_not_asks hrest⟩
    · intro hhidden hstill
      cases hasks : t.event.asksForLayout with
      | false => exact Told.layout_of_not_asks hasks
      | true => exact (hx.still_of_hidden ht hhidden hstill hasks).2
    · intro r hr hold
      rw [Told.outcome, hr]
      exact Controller.step_retry_of_stale hold
    · intro refresh result he hold
      rw [Told.outcome, he]
      simp [Controller.step, Controller.fetched, hold]

end Honeycomb
