import Honeycomb.Proofs.Controller.Queue

/-!
# The popup and the layout it belongs to

An open popup should stand beside a node of the layout that is drawn.  Popup and layout are written
at different times: recomputing closes the popup at once, and a retry may replace the layout later.

* `PopupBelongs` — the popup is closed, or it is open on a node of the current layout, anchored at
  the node's centre and placed beside it.
* `belongs_step` — every step keeps this, but for a retry that lays the modules out anew under a
  popup which was opened on the layout from before.
* `popup_belongs_iff` — so a run keeps it throughout exactly if every such retry draws a layout that
  has the popup's node in the same place; whatever happens, an open popup has a layout under it.
* `popup_outlives_its_node` — a run in which the popup stays open on a module that is gone.
-/

set_option autoImplicit false

namespace Honeycomb

/-- The popup is closed, or stands beside a node of the layout. -/
def Popup.BelongsTo (cfg : Controller.Config) (layout : Layout Float) : Popup → Prop
  | .closed => True
  | .opened name anchor position =>
    ∃ node, layout.find? name = some node ∧ anchor = node.center ∧
      position = Placement.place node.center layout.hexSize layout.surface cfg.popupSize

/-- The popup is closed, or there is a layout and the popup stands beside a node of it. -/
def Controller.PopupBelongs (cfg : Controller.Config) (c : Controller) : Prop :=
  c.popup = .closed ∨ ∃ layout, c.layout = some layout ∧ c.popup.BelongsTo cfg layout

instance (cfg : Controller.Config) (layout : Layout Float) (popup : Popup) :
    Decidable (popup.BelongsTo cfg layout) :=
  match popup with
  | .closed => .isTrue trivial
  | .opened name anchor position =>
    match h : layout.find? name with
    | none => .isFalse fun ⟨node, hf, _⟩ => by rw [h] at hf; cases hf
    | some node =>
      decidable_of_iff (anchor = node.center ∧
        position = Placement.place node.center layout.hexSize layout.surface cfg.popupSize)
        ⟨fun hn => ⟨node, h, hn⟩, fun ⟨node', hf, hn⟩ => by
          rw [h] at hf
          cases hf
          exact hn⟩

instance (cfg : Controller.Config) (c : Controller) : Decidable (c.PopupBelongs cfg) :=
  match h : c.layout with
  | none => decidable_of_iff (c.popup = .closed)
      ⟨.inl, fun hb => hb.elim id fun ⟨layout, hl, _⟩ => by rw [h] at hl; cases hl⟩
  | some layout => decidable_of_iff (c.popup = .closed ∨ c.popup.BelongsTo cfg layout)
      ⟨fun hb => hb.imp_right fun hb => ⟨layout, h, hb⟩,
        fun hb => hb.imp_right fun ⟨layout', hl, hb⟩ => by
          rw [h] at hl
          cases hl
          exact hb⟩

/-- A retry that is due lays the modules out while the popup is open: `layout` comes to lie under a
popup that was opened on another one. -/
def Told.Overtakes (cfg : Controller.Config) (t : Told) (layout : Layout Float) : Prop :=
  t.before.popup ≠ .closed ∧ ∃ retry surface, t.event = .retry retry ∧
    retry.generation = t.before.generation ∧ t.before.modules ≠ [] ∧ t.surface = .ok surface ∧
    Controller.isReady surface = true ∧
    Layout.ofModules t.before.modules surface cfg.padding = .ok layout

namespace Controller

variable {cfg : Config} {surface : Except Failure (Viewport Float)} {c : Controller}

theorem belongs_popupAfterClick {layout : Layout Float} {popup : Popup} {name : Text}
    {node : Node Float} (hf : layout.find? name = some node) :
    (popupAfterClick cfg layout popup node).BelongsTo cfg layout := by
  unfold popupAfterClick
  split
  · trivial
  · have hn : node.module.name = name := by simpa using List.find?_some hf
    exact ⟨node, by rw [hn]; exact hf, rfl, rfl⟩

/-- **What a step does to the popup**: it closes it, leaves it and the layout alone, opens it on the
current layout, or draws a new layout under it. -/
theorem popup_step (cfg : Config) (surface : Except Failure (Viewport Float)) (c : Controller)
    (event : Event) (hlive : ∀ r, event = .retry r → r.generation = c.generation → c.modules ≠ []) :
    (c.step cfg surface event).controller.popup = .closed ∨
      ((c.step cfg surface event).controller.popup = c.popup ∧
        (c.step cfg surface event).controller.layout = c.layout) ∨
      (∃ layout, (c.step cfg surface event).controller.layout = some layout ∧
        (c.step cfg surface event).controller.popup.BelongsTo cfg layout) ∨
      (∃ layout, (c.step cfg surface event).controller.popup = c.popup ∧
        (c.step cfg surface event).controller.layout = some layout ∧
        Told.Overtakes cfg ⟨c, surface, event⟩ layout) := by
  have h := step_spec cfg surface c event
  generalize c.step cfg surface event = o at h ⊢
  cases h with
  | @retried r due =>
    have h := attempt_spec cfg surface c r
    generalize c.attempt cfg surface r = o at h ⊢
    cases h with
    | empty _ none => exact absurd none (hlive r rfl due)
    | laidOut _ some measured ready laid =>
      by_cases hc : c.popup = .closed
      · exact .inl hc
      · exact .inr (.inr (.inr ⟨_, rfl, rfl, hc, r, _, rfl, due, some, measured, ready, laid⟩))
    | refused => exact .inl rfl
    | _ => exact .inr (.inl ⟨rfl, rfl⟩)
  | redrawn => exact .inl (attempt_popup_closed _ rfl)
  | clicked there found =>
    exact .inr (.inr (.inl ⟨_, there, belongs_popupAfterClick found⟩))
  | stored => exact .inl rfl
  | deactivated => exact .inl rfl
  | dismissed => exact .inl rfl
  | dismissedBare => exact .inl rfl
  | failed => exact .inl rfl
  | _ => exact .inr (.inl ⟨rfl, rfl⟩)

/-- **A step keeps the popup with its layout**, unless it is a retry that overtakes the popup with a
layout to which the popup does not belong. -/
theorem belongs_step {event : Event} (hb : c.PopupBelongs cfg)
    (hlive : ∀ r, event = .retry r → r.generation = c.generation → c.modules ≠ [])
    (hover : ∀ layout, Told.Overtakes cfg ⟨c, surface, event⟩ layout →
      c.popup.BelongsTo cfg layout) :
    (c.step cfg surface event).controller.PopupBelongs cfg := by
  rcases popup_step cfg surface c event hlive with
    h | ⟨hp, hl⟩ | h | ⟨layout, hp, hl, ho⟩
  · exact .inl h
  · rcases hb with hb | ⟨layout, hc, hb⟩
    · exact .inl (hp.trans hb)
    · exact .inr ⟨layout, hl.trans hc, by rw [hp]; exact hb⟩
  · exact .inr h
  · exact .inr ⟨layout, hl, by rw [hp]; exact hover layout ho⟩

/-- An open popup has a layout under it after a step, if it had one before. -/
theorem layout_step {event : Event} (hc : c.popup ≠ .closed → c.layout.isSome = true)
    (hlive : ∀ r, event = .retry r → r.generation = c.generation → c.modules ≠ [])
    (hopen : (c.step cfg surface event).controller.popup ≠ .closed) :
    (c.step cfg surface event).controller.layout.isSome = true := by
  rcases popup_step cfg surface c event hlive with
    h | ⟨hp, hl⟩ | ⟨layout, hl, -⟩ | ⟨layout, -, hl, -⟩
  · exact absurd h hopen
  · rw [hl]
    exact hc (by rw [← hp]; exact hopen)
  · rw [hl]; rfl
  · rw [hl]; rfl

end Controller

/-! ## Runs -/

namespace Host

/-- An open popup has a layout under it, whatever is put off. -/
structure PopupInv (h : Host) : Prop where
  queue : h.QueueInv
  layout : h.controller.popup ≠ .closed → h.controller.layout.isSome = true

theorem PopupInv.start : PopupInv .start := ⟨.start, fun h => absurd rfl h⟩

theorem PopupInv.tell {h rest : Host} {event : Event} {cfg : Controller.Config}
    {surface : Except Failure (Viewport Float)} (hp : h.PopupInv) (ho : h.Offers event rest) :
    (rest.absorb (h.controller.step cfg surface event)).PopupInv :=
  ⟨hp.queue.tell ho, Controller.layout_step hp.layout (ho.live hp.queue)⟩

end Host

namespace History

variable {cfg : Controller.Config}

theorem popupInv_run (turns : List (Turn Event)) : (run cfg turns).host.PopupInv :=
  run_induction (P := fun x => x.host.PopupInv) .start
    (fun _ _ _ _ _ hx _ _ => ⟨⟨hx.queue.bounded, hx.queue.live⟩, hx.layout⟩)
    (fun _ _ _ _ hx ho => hx.tell ho) turns

/-- If nothing overtakes the popup amiss, it belongs to the layout at the end. -/
theorem belongs_run (turns : List (Turn Event))
    (hover : ∀ t ∈ (run cfg turns).told, ∀ layout, t.Overtakes cfg layout →
      t.before.popup.BelongsTo cfg layout) :
    (run cfg turns).host.controller.PopupBelongs cfg := by
  refine (run_induction (P := fun x => x.host.QueueInv ∧ ((∀ t ∈ x.told, ∀ layout,
      t.Overtakes cfg layout → t.before.popup.BelongsTo cfg layout) →
      x.host.controller.PopupBelongs cfg)) ⟨.start, fun _ => .inl rfl⟩ ?_ ?_ turns).2 hover
  · intro x i f ending hf hx _ _
    exact ⟨⟨hx.1.bounded, hx.1.live⟩, hx.2⟩
  · intro x surface event rest hx ho
    refine ⟨hx.1.tell ho, fun hall => ?_⟩
    refine Controller.belongs_step (hx.2 fun t ht => hall t (List.mem_append_left _ ht))
      (ho.live hx.1) ?_
    exact hall ⟨x.host.controller, surface, event⟩
      (List.mem_append_right _ (List.mem_singleton.mpr rfl))

/-- What the controller was told of at any time led to one of the states of the run. -/
theorem exists_prefix_of_mem_told {turns : List (Turn Event)} {t : Told}
    (ht : t ∈ (run cfg turns).told) :
    ∃ past, past <+: turns ∧ (run cfg past).host.controller = t.after cfg := by
  suffices ∀ (ts past : List (Turn Event)), t ∈ (ts.foldl (next cfg) (run cfg past)).told →
      t ∈ (run cfg past).told ∨
        ∃ more, more <+: ts ∧ (run cfg (past ++ more)).host.controller = t.after cfg by
    rcases this turns [] ht with h | ⟨more, hm, h⟩
    · cases h
    · exact ⟨more, hm, h⟩
  intro ts
  induction ts with
  | nil => intro past h; exact .inl h
  | cons s ts ih =>
    intro past h
    have hnext : next cfg (run cfg past) s = run cfg (past ++ [s]) := (run_append past [s]).symm
    rw [List.foldl_cons, hnext] at h
    rcases ih (past ++ [s]) h with h | ⟨more, hm, h⟩
    · have hone : t ∈ (next cfg (run cfg past) s).told → t ∈ (run cfg past).told ∨
          (next cfg (run cfg past) s).host.controller = t.after cfg := by
        refine next_keeps (P := fun y => t ∈ y.told → t ∈ (run cfg past).told ∨
          y.host.controller = t.after cfg) .inl (fun _ _ _ _ _ _ h => .inl h) ?_ s
        intro surface event rest _ h
        rcases List.mem_append.mp h with h | h
        · exact .inl h
        · rw [List.mem_singleton.mp h]
          exact .inr rfl
      rw [hnext] at hone
      rcases hone h with h | h
      · exact .inl h
      · exact .inr ⟨[s], by simp, h⟩
    · rw [List.append_assoc] at h
      exact .inr ⟨s :: more, by simpa using hm, h⟩

/-- All that was told early in a run is part of what was told in the whole run. -/
theorem told_subset {past turns : List (Turn Event)} (hp : past <+: turns) {t : Told}
    (ht : t ∈ (run cfg past).told) : t ∈ (run cfg turns).told := by
  obtain ⟨more, rfl⟩ := hp
  rw [run_append]
  suffices ∀ (ts : List (Turn Event)) (x : History), t ∈ x.told →
      t ∈ (ts.foldl (next cfg) x).told from this more _ ht
  intro ts
  induction ts with
  | nil => intro x h; exact h
  | cons s ts ih =>
    intro x h
    exact ih _ (next_keeps (P := fun y => t ∈ y.told) h (fun _ _ _ _ _ _ => h)
      (fun _ _ _ _ => List.mem_append_left _ h) s)

end History

/-- A retry that overtakes the popup leaves it open, over the layout that it drew. -/
theorem Told.Overtakes.after {cfg : Controller.Config} {t : Told} {layout : Layout Float}
    (ho : t.Overtakes cfg layout) :
    (t.after cfg).popup = t.before.popup ∧ (t.after cfg).layout = some layout := by
  obtain ⟨before, surface, event⟩ := t
  obtain ⟨-, r, v, rfl, due, some, rfl, ready, laid⟩ := ho
  have h := Controller.attempt_spec cfg (.ok v) before r
  simp only [Told.after, Told.outcome, Controller.step]
  generalize before.attempt cfg (.ok v) r = o at h ⊢
  cases h with
  | laidOut _ _ measured _ laid' =>
    cases measured
    rw [laid] at laid'
    cases laid'
    exact ⟨rfl, rfl⟩
  | stale old => exact absurd due old
  | empty _ none => exact absurd none some
  | unmeasured _ _ fault => cases fault
  | refused _ _ measured _ bad =>
    cases measured
    rw [laid] at bad
    cases bad
  | waiting _ _ measured unready =>
    cases measured
    rw [ready] at unready
    cases unready
  | unavailable _ _ measured unready =>
    cases measured
    rw [ready] at unready
    cases unready

/-- **When the popup belongs to the current layout.**  In every state of every run an open popup has
a layout under it.  It stands beside a node of that layout in all states of a run exactly if every
retry that draws a new layout under the open popup draws one in which the popup's node lies where
the popup stands. -/
theorem popup_belongs_iff (cfg : Controller.Config) (turns : List (Turn Event)) :
    (∀ past, past <+: turns → (History.run cfg past).host.controller.popup ≠ .closed →
        (History.run cfg past).host.controller.layout.isSome = true) ∧
      ((∀ past, past <+: turns → (History.run cfg past).host.controller.PopupBelongs cfg) ↔
        ∀ t ∈ (History.run cfg turns).told, ∀ layout, t.Overtakes cfg layout →
          t.before.popup.BelongsTo cfg layout) := by
  refine ⟨fun past _ => (History.popupInv_run past).layout, ?_, ?_⟩
  · intro h t ht layout ho
    obtain ⟨hp, hl⟩ := ho.after
    obtain ⟨past, hpast, hc⟩ := History.exists_prefix_of_mem_told ht
    have hb := h past hpast
    rw [hc] at hb
    rcases hb with hb | ⟨layout', hl', hb⟩
    · exact absurd (hp.symm.trans hb) ho.1
    · rw [hl] at hl'
      cases hl'
      rw [← hp]
      exact hb
  · intro h past hp
    exact History.belongs_run past fun t ht => h t (History.told_subset hp ht)

/-- "a" is clicked on the old layout while a list without it waits for a surface with a size. -/
def clickBeforeRetry : List (Turn Event) :=
  [⟨.ok ⟨1200, 800⟩, .operate (.recompute [⟨"a", true, false, []⟩])⟩,
   ⟨.ok ⟨0, 0⟩, .operate (.recompute [⟨"b", true, false, []⟩])⟩,
   ⟨.ok ⟨0, 0⟩, .operate (.clickNode "a")⟩,
   ⟨.ok ⟨1200, 800⟩, .retry 0⟩]

/-- **A popup can outlive its node.**  The retry lays out "b" alone, and the popup stays open on a
module that the layout does not have. -/
theorem popup_outlives_its_node :
    ((History.run .default clickBeforeRetry).host.controller.popup.name? = some "a" ∧
        (History.run .default clickBeforeRetry).host.controller.layout.map Layout.names =
          some [("b" : Text)]) ∧
      ¬ ∀ (cfg : Controller.Config) (turns : List (Turn Event)),
        (History.run cfg turns).host.controller.PopupBelongs cfg := by
  refine ⟨by decide +kernel, fun h => ?_⟩
  exact absurd (h .default clickBeforeRetry) (by decide +kernel)

end Honeycomb
