import Honeycomb.Proofs.Controller.Run

/-!
# What one step of the controller does

* `Attempted` — every way in which an attempt to draw can go, with the conditions under which it
  goes that way; `attempt_spec` says that these are all.
* `Controller.brings?` and `Controller.redraws?` — the list that an event brings with it, and the
  list that it has the controller draw from scratch; `Controller.supersedes` — whether the event
  makes void what was put off before.
* `Stepped` — every way in which a step can go; `step_spec` says that these are all.
* `generation_step`, `modules_step`, `frame_step` — what becomes of the generation, the module list
  and all else that an event leaves alone.
-/

set_option autoImplicit false

namespace Honeycomb

namespace Controller

variable {cfg : Config} {surface : Except Failure (Viewport Float)} {c : Controller}

@[simp] theorem idle_controller (c : Controller) : c.idle.controller = c := rfl
@[simp] theorem idle_effects (c : Controller) : c.idle.effects = [] := rfl
@[simp] theorem draw_controller (c : Controller) (view : View) :
    (c.draw view).controller = { c with view := some view } := rfl
@[simp] theorem draw_effects (c : Controller) (view : View) :
    (c.draw view).effects = [.draw view] := rfl
@[simp] theorem fail_popup (c : Controller) (context : Text) (failure : Failure) :
    (c.fail context failure).controller.popup = .closed := rfl
@[simp] theorem startRefresh_controller (c : Controller) :
    c.startRefresh.controller = { c with refreshes := c.refreshes + 1 } := rfl

/-! ## Attempts -/

/-- The ways in which an attempt to draw can go. -/
inductive Attempted (cfg : Config) (surface : Except Failure (Viewport Float)) (c : Controller)
    (r : Retry) : Outcome → Prop
  | stale (old : r.generation ≠ c.generation) : Attempted cfg surface c r c.idle
  | empty (due : r.generation = c.generation) (none : c.modules = []) :
      Attempted cfg surface c r ({ c with layout := .none }.draw .empty)
  | unmeasured {failure : Failure} (due : r.generation = c.generation) (some : c.modules ≠ [])
      (fault : surface = .error failure) : Attempted cfg surface c r ⟨c, [], .some failure⟩
  | laidOut {v : Viewport Float} {layout : Layout Float} (due : r.generation = c.generation)
      (some : c.modules ≠ []) (measured : surface = .ok v) (ready : isReady v = true)
      (laid : Layout.ofModules c.modules v cfg.padding = .ok layout) :
      Attempted cfg surface c r ({ c with layout := .some layout }.drawLayout layout)
  | refused {v : Viewport Float} {e : LayoutError Float} (due : r.generation = c.generation)
      (some : c.modules ≠ []) (measured : surface = .ok v) (ready : isReady v = true)
      (bad : Layout.ofModules c.modules v cfg.padding = .error e) :
      Attempted cfg surface c r (c.fail "Hex grid error" (.layout e))
  | waiting {v : Viewport Float} (due : r.generation = c.generation) (some : c.modules ≠ [])
      (measured : surface = .ok v) (unready : isReady v = false) (left : r.count < retryLimit) :
      Attempted cfg surface c r
        { controller := { c with view := .some (.waiting v (r.count + 1)) }
          effects := [.draw (.waiting v (r.count + 1)), .schedule ⟨r.generation, r.count + 1⟩]
          failure := .none }
  | unavailable {v : Viewport Float} (due : r.generation = c.generation) (some : c.modules ≠ [])
      (measured : surface = .ok v) (unready : isReady v = false) (spent : ¬ r.count < retryLimit) :
      Attempted cfg surface c r (c.draw (.unavailable v))

/-- **Every attempt goes one of these ways.** -/
theorem attempt_spec (cfg : Config) (surface : Except Failure (Viewport Float)) (c : Controller)
    (r : Retry) : Attempted cfg surface c r (c.attempt cfg surface r) := by
  unfold attempt
  split
  · rename_i old
    exact .stale old
  rename_i due
  have due : r.generation = c.generation := Decidable.not_not.mp due
  split
  · rename_i none
    exact .empty due (by simpa using none)
  rename_i some
  have some : c.modules ≠ [] := by simpa using some
  split
  · rename_i failure
    exact .unmeasured due some rfl
  rename_i v
  split
  · rename_i ready
    split
    · rename_i e bad
      exact .refused due some rfl ready bad
    · rename_i layout laid
      exact .laidOut due some rfl ready laid
  · rename_i unready
    have unready : isReady v = false := by simpa using unready
    split
    · rename_i left
      exact .waiting due some rfl unready left
    · rename_i spent
      exact .unavailable due some rfl unready spent

/-- What an attempt leaves alone. -/
theorem attempt_frame (cfg : Config) (surface : Except Failure (Viewport Float)) (c : Controller)
    (r : Retry) :
    (c.attempt cfg surface r).controller.modules = c.modules ∧
      (c.attempt cfg surface r).controller.active = c.active ∧
      (c.attempt cfg surface r).controller.generation = c.generation ∧
      (c.attempt cfg surface r).controller.refreshes = c.refreshes := by
  have h := attempt_spec cfg surface c r
  generalize c.attempt cfg surface r = o at h ⊢
  cases h <;> exact ⟨rfl, rfl, rfl, rfl⟩

/-- An attempt never opens a popup. -/
theorem attempt_popup_closed (r : Retry) (hc : c.popup = .closed) :
    (c.attempt cfg surface r).controller.popup = .closed := by
  have h := attempt_spec cfg surface c r
  generalize c.attempt cfg surface r = o at h ⊢
  cases h <;> first | exact hc | rfl

/-- An attempt makes no call. -/
theorem attempt_calls (r : Retry) :
    (c.attempt cfg surface r).effects.filterMap Effect.call? = [] := by
  have h := attempt_spec cfg surface c r
  generalize c.attempt cfg surface r = o at h ⊢
  cases h <;> rfl

/-- An attempt puts off at most one retry, of the generation that there is, and none if there are no
modules to draw. -/
theorem attempt_retries (cfg : Config) (surface : Except Failure (Viewport Float)) (c : Controller)
    (r : Retry) :
    (c.attempt cfg surface r).effects.filterMap Effect.retry? = [] ∨
      c.modules ≠ [] ∧ (c.attempt cfg surface r).effects.filterMap Effect.retry? =
        [⟨c.generation, r.count + 1⟩] := by
  have h := attempt_spec cfg surface c r
  generalize c.attempt cfg surface r = o at h ⊢
  cases h with
  | waiting due some measured unready left =>
    rw [← due]
    exact .inr ⟨some, rfl⟩
  | _ => exact .inl rfl

/-! ## Recomputing -/

/-- The controller that a recompute starts its attempt from. -/
def renewed (c : Controller) (modules : List Module) : Controller :=
  { c with modules, popup := .closed, generation := c.generation + 1 }

theorem recompute_active (h : c.active = true) (modules : List Module) :
    c.recompute cfg surface modules =
      (c.renewed modules).attempt cfg surface ⟨c.generation + 1, 0⟩ := by
  simp [recompute, renewed, h]

theorem recompute_hidden (h : c.active = false) (modules : List Module) :
    c.recompute cfg surface modules = (c.renewed modules).idle := by
  simp [recompute, renewed, h]

end Controller

/-! ## What an event brings -/

/-- Whether an event asks for a layout: the modules are to be drawn from scratch, or a retry is
due. -/
def Event.asksForLayout : Event → Bool
  | .recompute _ | .resize | .activate | .retry _ | .fetched _ (.ok _) => true
  | _ => false

/-- Whether an event starts a refresh: one from outside, or the end of an edit that did not fail. -/
def Event.startsRefresh : Event → Bool
  | .refresh | .toggled _ (.ok _) | .saved _ (.ok _) => true
  | _ => false

namespace Controller

/-- The module list that an event brings from outside, if the controller takes it over: one that is
to be drawn, or what the latest refresh fetched. -/
def brings? (c : Controller) : Event → Option (List Module)
  | .recompute modules => some modules
  | .fetched refresh (.ok modules) => if refresh = c.refreshes then some modules else none
  | _ => none

/-- The module list that an event has the controller draw from scratch. -/
def redraws? (c : Controller) : Event → Option (List Module)
  | .resize => if c.active then some c.modules else none
  | .activate => some c.modules
  | event => c.brings? event

/-- Whether an event makes void what was put off before: the modules are recomputed, or the
controller is hidden. -/
def supersedes (c : Controller) (event : Event) : Bool :=
  match event with
  | .deactivate => true
  | event => (c.redraws? event).isSome

theorem supersedes_of_redraws? {c : Controller} {event : Event} {modules : List Module}
    (brought : c.redraws? event = some modules) : c.supersedes event = true := by
  unfold supersedes
  split <;> simp [brought]

theorem redraws?_of_kept {c : Controller} {event : Event} (kept : c.supersedes event = false) :
    c.redraws? event = none := by
  cases h : c.redraws? event with
  | none => rfl
  | some modules =>
    rw [supersedes_of_redraws? h] at kept
    cases kept

/-- What is drawn from scratch is the list that is brought, or else the controller's own. -/
theorem redraws?_getD (c : Controller) (event : Event) :
    (c.redraws? event).getD c.modules = (c.brings? event).getD c.modules := by
  cases event with
  | resize => by_cases h : c.active = true <;> simp [redraws?, brings?, h]
  | _ => rfl

theorem asksForLayout_of_redraws? {c : Controller} {event : Event} {modules : List Module}
    (brought : c.redraws? event = some modules) : event.asksForLayout = true := by
  cases event with
  | fetched refresh result =>
    cases result with
    | error failure => cases brought
    | ok modules => rfl
  | recompute => rfl
  | resize => rfl
  | activate => rfl
  | retry => rfl
  | _ => cases brought

/-- What asks for no layout brings no list. -/
theorem brings?_of_not_asks {c : Controller} {event : Event} (rest : event.asksForLayout = false) :
    c.brings? event = none := by
  cases event with
  | recompute => cases rest
  | fetched refresh result =>
    cases result with
    | error failure => rfl
    | ok modules => cases rest
  | _ => rfl

/-- What starts a refresh asks for no layout, and makes nothing void. -/
theorem quiet_of_startsRefresh {c : Controller} {event : Event}
    (starts : event.startsRefresh = true) :
    event.asksForLayout = false ∧ c.supersedes event = false := by
  cases event with
  | refresh => exact ⟨rfl, rfl⟩
  | toggled name result => exact ⟨rfl, rfl⟩
  | saved name result => exact ⟨rfl, rfl⟩
  | _ => cases starts

/-! ## The cases of a step -/

variable {cfg : Config} {surface : Except Failure (Viewport Float)} {c : Controller}

/-- The ways in which a step can go. -/
inductive Stepped (cfg : Config) (surface : Except Failure (Viewport Float)) (c : Controller) :
    Event → Outcome → Prop
  | ignored {event : Event} (kept : c.supersedes event = false)
      (stale : ∀ r, event = .retry r → r.generation ≠ c.generation) :
      Stepped cfg surface c event c.idle
  | retried {r : Retry} (due : r.generation = c.generation) :
      Stepped cfg surface c (.retry r) (c.attempt cfg surface r)
  | redrawn {event : Event} {modules : List Module} (brought : c.redraws? event = some modules)
      (shown : c.active = true ∨ event = .activate) :
      Stepped cfg surface c event
        (({ c with active := true }.renewed modules).attempt cfg surface ⟨c.generation + 1, 0⟩)
  | stored {event : Event} {modules : List Module} (brought : c.redraws? event = some modules)
      (hidden : c.active = false) (still : event ≠ .activate) :
      Stepped cfg surface c event (c.renewed modules).idle
  | deactivated :
      Stepped cfg surface c .deactivate
        { c with active := false, popup := .closed, generation := c.generation + 1 }.idle
  | clicked {name : Text} {layout : Layout Float} {node : Node Float}
      (there : c.layout = some layout) (found : layout.find? name = some node) :
      Stepped cfg surface c (.clickNode name)
        ({ c with popup := popupAfterClick cfg layout c.popup node }.drawLayout layout)
  | dismissed {layout : Layout Float} (there : c.layout = some layout) :
      Stepped cfg surface c .clickOutside ({ c with popup := .closed }.drawLayout layout)
  | dismissedBare (opened : c.popup ≠ .closed) (bare : c.layout = none) :
      Stepped cfg surface c .clickOutside { c with popup := .closed }.idle
  | toggle (name : Text) : Stepped cfg surface c (.toggle name) ⟨c, [.call (.toggle name)], none⟩
  | save (name : Text) (typed : Fields Text) :
      Stepped cfg surface c (.save name typed) ⟨c, [.call (.update name typed.ofTyped)], none⟩
  | refreshed {event : Event} (starts : event.startsRefresh = true) :
      Stepped cfg surface c event c.startRefresh
  | declined {event : Event} {warning : LogLine} (starts : event.startsRefresh = true) :
      Stepped cfg surface c event
        { c.startRefresh with effects := .log warning :: c.startRefresh.effects }
  | failed {event : Event} {context : Text} {failure : Failure}
      (ended : event.asksForLayout = false) (kept : c.supersedes event = false) :
      Stepped cfg surface c event (c.fail context failure)

theorem step_retry_of_stale {r : Retry} (old : r.generation ≠ c.generation) :
    c.step cfg surface (.retry r) = c.idle := by
  simp [step, attempt, old]

/-- A list to be drawn from scratch is drawn if the controller is active, else it is only kept. -/
theorem stepped_recompute {event : Event} {modules : List Module}
    (brought : c.redraws? event = some modules) (still : event ≠ .activate) :
    Stepped cfg surface c event (c.recompute cfg surface modules) := by
  cases h : c.active with
  | true =>
    rw [recompute_active h]
    have shown : c.renewed modules = { c with active := true }.renewed modules := by
      simp only [renewed, h]
    rw [shown]
    exact .redrawn brought (.inl h)
  | false =>
    rw [recompute_hidden h]
    exact .stored brought h still

theorem stepped_clickNode (name : Text) :
    Stepped cfg surface c (.clickNode name) (c.clickNode cfg name) := by
  unfold clickNode
  split
  · exact .ignored rfl (by simp)
  · rename_i layout there
    split
    · exact .ignored rfl (by simp)
    · rename_i node found
      exact .clicked there found

theorem stepped_clickOutside : Stepped cfg surface c .clickOutside c.clickOutside := by
  unfold clickOutside
  split
  · exact .ignored rfl (by simp)
  · rename_i opened
    dsimp only
    split
    · rename_i bare
      exact .dismissedBare (by rw [opened]; simp) bare
    · rename_i layout there
      exact .dismissed there

/-- An edit that came to its end has failed, or starts a refresh. -/
theorem stepped_edited {event : Event} {result : Except Failure Bool}
    (edit : event.asksForLayout = false) (kept : c.supersedes event = false)
    (starts : ∀ accepted, result = .ok accepted → event.startsRefresh = true)
    (context rejection : Text) :
    Stepped cfg surface c event (c.edited context rejection result) := by
  unfold edited
  split
  · exact .failed edit kept
  · exact .refreshed (starts _ rfl)
  · exact .declined (starts _ rfl)

/-- **Every step goes one of these ways.** -/
theorem step_spec (cfg : Config) (surface : Except Failure (Viewport Float)) (c : Controller)
    (event : Event) : Stepped cfg surface c event (c.step cfg surface event) := by
  cases event with
  | recompute modules => exact stepped_recompute rfl (by simp)
  | resize =>
    simp only [step]
    split
    · rename_i active
      exact stepped_recompute (by simp [redraws?, active]) (by simp)
    · rename_i hidden
      exact .ignored (by simp [supersedes, redraws?, hidden]) (by simp)
  | activate =>
    rw [step, recompute_active rfl]
    exact .redrawn rfl (.inr rfl)
  | deactivate => exact .deactivated
  | clickNode name => exact stepped_clickNode name
  | clickOutside => exact stepped_clickOutside
  | retry r =>
    by_cases due : r.generation = c.generation
    · exact .retried due
    · rw [step_retry_of_stale due]
      refine .ignored rfl ?_
      rintro r' ⟨⟩
      exact due
  | refresh => exact .refreshed rfl
  | toggle name => exact .toggle name
  | save name typed => exact .save name typed
  | fetched refresh result =>
    simp only [step, fetched]
    split
    · rename_i older
      refine .ignored ?_ (by simp)
      cases result <;> simp [supersedes, redraws?, brings?, older]
    · rename_i latest
      have latest : refresh = c.refreshes := Decidable.not_not.mp latest
      cases result with
      | error failure => exact .failed rfl rfl
      | ok modules => exact stepped_recompute (by simp [redraws?, brings?, latest]) (by simp)
  | toggled name result => exact stepped_edited rfl rfl (by rintro _ rfl; rfl) _ _
  | saved name result => exact stepped_edited rfl rfl (by rintro _ rfl; rfl) _ _

/-! ## What becomes of generation, modules and activity -/

/-- **The generation counts what supersedes retries.** -/
theorem generation_step (cfg : Config) (surface : Except Failure (Viewport Float)) (c : Controller)
    (event : Event) :
    (c.step cfg surface event).controller.generation =
      if c.supersedes event then c.generation + 1 else c.generation := by
  have h := step_spec cfg surface c event
  generalize c.step cfg surface event = o at h ⊢
  cases h with
  | ignored kept stale => simp [kept]
  | retried due => exact (attempt_frame cfg surface c _).2.2.1
  | redrawn brought shown =>
    rw [if_pos (supersedes_of_redraws? brought)]
    exact (attempt_frame cfg surface _ _).2.2.1
  | stored brought hidden still => simp [supersedes_of_redraws? brought, renewed]
  | refreshed starts => simp [(quiet_of_startsRefresh starts).2]
  | declined starts => simp [(quiet_of_startsRefresh starts).2]
  | failed ended kept => simp [kept, fail]
  | _ => rfl

theorem generation_le_step (cfg : Config) (surface : Except Failure (Viewport Float))
    (c : Controller) (event : Event) :
    c.generation ≤ (c.step cfg surface event).controller.generation := by
  rw [generation_step]
  split <;> omega

/-- **A controller has the list that it was brought last.** -/
theorem modules_step (cfg : Config) (surface : Except Failure (Viewport Float)) (c : Controller)
    (event : Event) :
    (c.step cfg surface event).controller.modules = (c.brings? event).getD c.modules := by
  have h := step_spec cfg surface c event
  generalize c.step cfg surface event = o at h ⊢
  rw [← redraws?_getD]
  cases h with
  | ignored kept stale => simp [redraws?_of_kept kept]
  | retried due => exact (attempt_frame cfg surface c _).1
  | redrawn brought shown =>
    rw [brought]
    exact (attempt_frame cfg surface _ _).1
  | stored brought hidden still => simp [brought, renewed]
  | refreshed starts => simp [redraws?_of_kept (quiet_of_startsRefresh starts).2]
  | declined starts => simp [redraws?_of_kept (quiet_of_startsRefresh starts).2]
  | failed ended kept => simp [redraws?_of_kept kept, fail]
  | _ => rfl

/-- **Modules and activity change only with the generation.** -/
theorem frame_step (cfg : Config) (surface : Except Failure (Viewport Float)) (c : Controller)
    {event : Event} (kept : c.supersedes event = false) :
    (c.step cfg surface event).controller.modules = c.modules ∧
      (c.step cfg surface event).controller.active = c.active := by
  have h := step_spec cfg surface c event
  generalize c.step cfg surface event = o at h ⊢
  cases h with
  | retried due =>
    obtain ⟨hm, ha, -⟩ := attempt_frame cfg surface c _
    exact ⟨hm, ha⟩
  | redrawn brought shown =>
    rw [supersedes_of_redraws? brought] at kept
    cases kept
  | stored brought hidden still =>
    rw [supersedes_of_redraws? brought] at kept
    cases kept
  | deactivated => cases kept
  | _ => exact ⟨rfl, rfl⟩

/-- Only its activation makes a hidden controller active. -/
theorem active_step (hidden : c.active = false) {event : Event} (still : event ≠ .activate) :
    (c.step cfg surface event).controller.active = false := by
  have h := step_spec cfg surface c event
  generalize c.step cfg surface event = o at h ⊢
  cases h with
  | retried due => exact (attempt_frame cfg surface c _).2.1.trans hidden
  | redrawn brought shown =>
    rcases shown with active | activate
    · rw [hidden] at active
      cases active
    · exact absurd activate still
  | deactivated => rfl
  | _ => exact hidden

end Controller

end Honeycomb
