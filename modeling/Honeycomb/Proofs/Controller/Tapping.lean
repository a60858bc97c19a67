import Mathlib.Data.List.Induction
import Honeycomb.Proofs.Controller.Popup

/-!
# What clicks make of the popup

Between any two other events a controller may be clicked any number of times, on names that its
layout has or has not, and outside.

* `Tap` — a click; `Tap.counts` — a click on a name that the layout does not have is passed over.
* `OpenAfter` — on which module some clicks leave the popup open, told from the clicks alone: the
  last of them were clicks on it, an odd number in a row.
* `openAfter_node`, `not_openAfter_outside` — what one more click makes of that.
* `Tapped` — what becomes of a controller that is clicked; `Tapped.concat` says that one more
  click keeps it so.
* `popup_after_taps` — so it is after any clicks, whatever happened before them.
-/

set_option autoImplicit false

namespace Honeycomb

/-- A click. -/
inductive Tap
  | node (name : Text)
  | outside
deriving DecidableEq

namespace Tap

def event : Tap → Event
  | .node name => .clickNode name
  | .outside => .clickOutside

/-- A click, and what measuring the surface would give meanwhile, as a turn. -/
def turn (tap : Except Failure (Viewport Float) × Tap) : Turn Event := ⟨tap.1, .operate tap.2.event⟩

/-- Whether a click counts: one on a name counts only if the layout has it. -/
def counts (layout : Layout Float) : Tap → Bool
  | .node name => (layout.find? name).isSome
  | .outside => true

theorem isOperation_event (tap : Tap) : tap.event.isOperation = true := by
  cases tap <;> rfl

end Tap

/-! ## The closed form -/

/-- How many clicks on a module the last clicks are, in a row. -/
def lastInARow (taps : List Tap) (name : Text) : Nat :=
  (taps.reverse.takeWhile (· == .node name)).length

/-- The last clicks on a module, in a row, where a popup that was open on it counts as a click
before all others. -/
def strokes (popup : Popup) (taps : List Tap) (name : Text) : Nat :=
  lastInARow taps name +
    if lastInARow taps name = taps.length ∧ popup.isOpenOn name = true then 1 else 0

/-- Whether clicks that count leave the popup open on a module: it was open and nothing was clicked,
or the module was clicked last, an odd number of times in a row. -/
def OpenAfter (popup : Popup) (taps : List Tap) (name : Text) : Prop :=
  taps = [] ∧ popup.isOpenOn name = true ∨
    taps.getLast? = some (.node name) ∧ strokes popup taps name % 2 = 1

instance (popup : Popup) (taps : List Tap) (name : Text) : Decidable (OpenAfter popup taps name) :=
  inferInstanceAs (Decidable (_ ∨ _))

section

variable {popup : Popup} {taps : List Tap} {name clicked : Text}

theorem lastInARow_concat (taps : List Tap) (tap : Tap) (name : Text) :
    lastInARow (taps ++ [tap]) name = if tap = .node name then lastInARow taps name + 1 else 0 := by
  rw [lastInARow, List.reverse_append, List.reverse_singleton, List.singleton_append,
    List.takeWhile_cons]
  by_cases h : tap = .node name <;> simp [h, lastInARow]

/-- A click on another module, or outside, ends the row. -/
theorem strokes_concat (popup : Popup) (taps : List Tap) (tap : Tap) (name : Text) :
    strokes popup (taps ++ [tap]) name =
      if tap = .node name then strokes popup taps name + 1 else 0 := by
  rw [strokes, lastInARow_concat, List.length_append, List.length_singleton]
  split
  · simp only [strokes, Nat.add_right_cancel_iff]
    omega
  · rw [if_neg (by omega)]

/-- **The popup is open on a module after an odd number of clicks** on it, the popup from before
included. -/
theorem openAfter_iff : OpenAfter popup taps name ↔ strokes popup taps name % 2 = 1 := by
  unfold OpenAfter
  rcases List.eq_nil_or_concat' taps with rfl | ⟨earlier, last, rfl⟩
  · by_cases opened : popup.isOpenOn name = true <;> simp [strokes, lastInARow, opened]
  · have hne : earlier ++ [last] ≠ [] := by simp
    rw [List.getLast?_concat, Option.some.injEq, strokes_concat]
    by_cases same : last = .node name <;> simp [same, hne]

theorem openAfter_nil : OpenAfter popup [] name ↔ popup.isOpenOn name = true := by
  simp [OpenAfter]

/-- After a click outside the popup is open on nothing. -/
theorem not_openAfter_outside : ¬ OpenAfter popup (taps ++ [.outside]) name := by
  simp [openAfter_iff, strokes_concat]

/-- **After a click on a module** the popup is open on this one, unless it was so before. -/
theorem openAfter_node :
    OpenAfter popup (taps ++ [.node clicked]) name ↔
      name = clicked ∧ ¬ OpenAfter popup taps clicked := by
  rw [openAfter_iff, openAfter_iff, strokes_concat]
  by_cases same : name = clicked
  · subst same
    rw [if_pos rfl, and_iff_right rfl]
    omega
  · simp [same, Ne.symm same]

end

/-! ## One click -/

@[simp] theorem Popup.isOpenOn_closed (name : Text) : Popup.closed.isOpenOn name = false := rfl

@[simp] theorem Popup.isOpenOn_opened {module name : Text} {anchor position : Point Float} :
    (Popup.opened module anchor position).isOpenOn name = true ↔ module = name := by
  rw [isOpenOn, name?, beq_iff_eq, Option.some.injEq]

theorem Popup.eq_closed_of_not_open {popup : Popup} (h : ∀ name, ¬ popup.isOpenOn name = true) :
    popup = .closed := by
  cases popup with
  | closed => rfl
  | opened name => exact absurd (isOpenOn_opened.mpr rfl) (h name)

namespace Controller

variable {cfg : Config} {c : Controller} {layout : Layout Float} {popup : Popup} {name : Text}

/-- The popup after a click. -/
def popupAfterTap (cfg : Config) (layout : Layout Float) (popup : Popup) : Tap → Popup
  | .outside => .closed
  | .node name =>
    match layout.find? name with
    | none => popup
    | some node => popupAfterClick cfg layout popup node

/-- Whether a click draws a view: each one that counts does, unless it is one outside and there is
no popup to close. -/
def draws (layout : Layout Float) (popup : Popup) : Tap → Bool
  | .outside => popup ≠ .closed
  | .node name => (layout.find? name).isSome

/-- **What comes of a click**: the layout is drawn once more, with the popup as it is then, or
nothing at all. -/
theorem step_tap (cfg : Config) (surface : Except Failure (Viewport Float))
    (there : c.layout = some layout) (tap : Tap) :
    c.step cfg surface tap.event =
      if draws layout c.popup tap then
        { c with popup := popupAfterTap cfg layout c.popup tap }.drawLayout layout
      else c.idle := by
  -- `Stepped` does not say when a click is passed over, so the two handlers are opened here
  cases tap with
  | node name =>
    simp only [Tap.event, step, clickNode, there, draws, popupAfterTap]
    split <;> rename_i found <;> simp [found]
  | outside =>
    simp only [Tap.event, step, clickOutside, draws, popupAfterTap]
    split
    · rename_i closed
      simp [closed]
    · rename_i opened
      simp [opened, there]

theorem popupAfterTap_of_still {tap : Tap} (h : draws layout popup tap = false) :
    popupAfterTap cfg layout popup tap = popup := by
  cases tap with
  | node name =>
    have absent : layout.find? name = none := by simpa [draws] using h
    rw [popupAfterTap, absent]
  | outside =>
    have closed : popup = .closed := by simpa [draws] using h
    rw [popupAfterTap, closed]

/-- A click changes the popup and the view, and nothing else. -/
theorem frame_tap (cfg : Config) (surface : Except Failure (Viewport Float))
    (there : c.layout = some layout) (tap : Tap) :
    (c.step cfg surface tap.event).controller =
      { c with
        popup := popupAfterTap cfg layout c.popup tap
        view := (c.step cfg surface tap.event).controller.view } := by
  rw [step_tap cfg surface there]
  split
  · rfl
  · rename_i still
    rw [popupAfterTap_of_still (by simpa using still)]
    rfl

/-- A click puts nothing off and makes no call. -/
theorem quiet_tap (cfg : Config) (surface : Except Failure (Viewport Float))
    (there : c.layout = some layout) (tap : Tap) :
    (c.step cfg surface tap.event).effects.filterMap Effect.retry? = [] ∧
      (c.step cfg surface tap.event).effects.filterMap Effect.call? = [] := by
  rw [step_tap cfg surface there]
  split <;> exact ⟨rfl, rfl⟩

/-- A click that counts puts the popup where it belongs; any other leaves it. -/
theorem belongs_popupAfterTap (cfg : Config) (layout : Layout Float) (popup : Popup) (tap : Tap) :
    (popupAfterTap cfg layout popup tap).BelongsTo cfg layout ∨
      popupAfterTap cfg layout popup tap = popup ∧ [tap].filter (·.counts layout) = [] := by
  cases tap with
  | outside => exact .inl trivial
  | node name =>
    cases found : layout.find? name with
    | none => exact .inr (by simp [popupAfterTap, Tap.counts, found])
    | some node =>
      rw [popupAfterTap, found]
      exact .inl (belongs_popupAfterClick found)

theorem isOpenOn_popupAfterClick {node : Node Float} :
    (popupAfterClick cfg layout popup node).isOpenOn name = true ↔
      name = node.module.name ∧ ¬ popup.isOpenOn node.module.name = true := by
  unfold popupAfterClick
  split
  · rename_i opened
    simp [opened]
  · rename_i other
    rw [Popup.isOpenOn_opened, eq_comm]
    exact (and_iff_left other).symm

end Controller

/-- **One more click on the popup that some clicks left.** -/
theorem isOpenOn_popupAfterTap {cfg : Controller.Config} {layout : Layout Float}
    {first popup : Popup} {taps : List Tap}
    (h : ∀ name, popup.isOpenOn name = true ↔ OpenAfter first (taps.filter (·.counts layout)) name)
    (tap : Tap) (name : Text) :
    (Controller.popupAfterTap cfg layout popup tap).isOpenOn name = true ↔
      OpenAfter first ((taps ++ [tap]).filter (·.counts layout)) name := by
  rw [List.filter_append]
  cases tap with
  | outside =>
    have counts : [Tap.outside].filter (·.counts layout) = [.outside] := rfl
    rw [counts]
    simp [Controller.popupAfterTap, not_openAfter_outside]
  | node clicked =>
    cases found : layout.find? clicked with
    | none =>
      have passed : [Tap.node clicked].filter (·.counts layout) = [] := by
        simp [Tap.counts, found]
      rw [passed, List.append_nil, Controller.popupAfterTap, found]
      exact h name
    | some node =>
      have counts : [Tap.node clicked].filter (·.counts layout) = [.node clicked] := by
        simp [Tap.counts, found]
      have named : node.module.name = clicked := by simpa using List.find?_some found
      rw [counts, openAfter_node, Controller.popupAfterTap, found]
      simp only [Controller.isOpenOn_popupAfterClick, named, h]

/-! ## Any clicks -/

/-- What some clicks make of a history: only popup and view are changed, the popup is open as the
clicks that count tell, it belongs to the layout once one of them counted, and each click was made
on the layout. -/
structure Tapped (cfg : Controller.Config) (layout : Layout Float) (x : History)
    (taps : List (Except Failure (Viewport Float) × Tap)) (y : History) : Prop where
  frame : y.host =
    { x.host with
      controller :=
        { x.host.controller with
          popup := y.host.controller.popup
          view := y.host.controller.view } }
  popup : ∀ name, y.host.controller.popup.isOpenOn name = true ↔
    OpenAfter x.host.controller.popup ((taps.map Prod.snd).filter (·.counts layout)) name
  belongs : y.host.controller.popup = x.host.controller.popup ∧
      (taps.map Prod.snd).filter (·.counts layout) = [] ∨
    y.host.controller.popup.BelongsTo cfg layout
  told : ∃ later : List Told, y.told = x.told ++ later ∧
    later.map Told.event = taps.map (·.2.event) ∧ ∀ t ∈ later, t.before.layout = some layout

namespace Tapped

variable {cfg : Controller.Config} {layout : Layout Float} {x y : History}
  {taps : List (Except Failure (Viewport Float) × Tap)}

theorem nil (x : History) : Tapped cfg layout x [] x :=
  ⟨rfl, fun _ => openAfter_nil.symm, .inl ⟨rfl, rfl⟩, [], (List.append_nil _).symm, rfl, by simp⟩

theorem layout_eq (h : Tapped cfg layout x taps y)
    (there : x.host.controller.layout = some layout) : y.host.controller.layout = some layout := by
  rw [h.frame]
  exact there

theorem modules_eq (h : Tapped cfg layout x taps y) :
    y.host.controller.modules = x.host.controller.modules := by
  rw [h.frame]

theorem generation_eq (h : Tapped cfg layout x taps y) :
    y.host.controller.generation = x.host.controller.generation := by
  rw [h.frame]

theorem queue_eq (h : Tapped cfg layout x taps y) : y.host.queue = x.host.queue := by
  rw [h.frame]

/-- A click is told at once. -/
theorem next_turn (cfg : Controller.Config) (x : History)
    (tap : Except Failure (Viewport Float) × Tap) :
    x.next cfg (Tap.turn tap) = x.tell cfg tap.1 tap.2.event x.host := by
  simp [History.next, Tap.turn, Host.offer?, Tap.isOperation_event]

/-- **One more click.** -/
theorem concat (h : Tapped cfg layout x taps y) (there : x.host.controller.layout = some layout)
    (tap : Except Failure (Viewport Float) × Tap) :
    Tapped cfg layout x (taps ++ [tap]) (y.next cfg (Tap.turn tap)) := by
  have hlayout := h.layout_eq there
  obtain ⟨later, htold, hevents, hlater⟩ := h.told
  obtain ⟨hretries, hcalls⟩ := Controller.quiet_tap cfg tap.1 hlayout tap.2
  have hframe := Controller.frame_tap cfg tap.1 hlayout tap.2
  rw [next_turn, History.tell, Told.outcome]
  refine ⟨?_, ?_, ?_, later ++ [⟨y.host.controller, tap.1, tap.2.event⟩], ?_, ?_, ?_⟩
  · dsimp only [Host.absorb]
    rw [hretries, hcalls, List.append_nil, List.map_nil, List.append_nil, hframe, h.frame]
  · intro name
    dsimp only [Host.absorb]
    rw [hframe, List.map_append, List.map_singleton]
    exact isOpenOn_popupAfterTap h.popup tap.2 name
  · dsimp only [Host.absorb]
    rw [hframe, List.map_append, List.map_singleton, List.filter_append]
    rcases Controller.belongs_popupAfterTap cfg layout y.host.controller.popup tap.2 with
      hnew | ⟨hsame, hpassed⟩
    · exact .inr hnew
    · rw [hsame, hpassed, List.append_nil]
      exact h.belongs
  · rw [htold, List.append_assoc]
  · rw [List.map_append, List.map_append, hevents]
    rfl
  · intro t ht
    rcases List.mem_append.mp ht with ht | ht
    · exact hlater t ht
    · rw [List.mem_singleton.mp ht]
      exact hlayout

end Tapped

/-- A controller that has a layout is clicked. -/
theorem History.tapped_run {cfg : Controller.Config} {past : List (Turn Event)}
    {layout : Layout Float} (there : (run cfg past).host.controller.layout = some layout)
    (taps : List (Except Failure (Viewport Float) × Tap)) :
    Tapped cfg layout (run cfg past) taps (run cfg (past ++ taps.map Tap.turn)) := by
  induction taps using List.reverseRecOn with
  | nil =>
    rw [List.map_nil, List.append_nil]
    exact .nil _
  | append_singleton taps tap ih =>
    rw [List.map_append, ← List.append_assoc, run_append, List.map_singleton, List.foldl_cons,
      List.foldl_nil]
    exact ih.concat there tap

namespace Told

variable {cfg : Controller.Config} {t : Told} {layout : Layout Float} {name : Text}

theorem drawn_of_found (there : t.before.layout = some layout) (clicked : t.event = .clickNode name)
    (found : (layout.find? name).isSome = true) :
    t.drawn cfg = [.layout layout (t.after cfg).popup] := by
  have hstep := Controller.step_tap cfg t.surface there (.node name)
  rw [Controller.draws, if_pos found] at hstep
  rw [drawn, after, outcome, clicked,
    show t.before.step cfg t.surface (.clickNode name) = _ from hstep]
  rfl

theorem idle_of_absent (there : t.before.layout = some layout) (clicked : t.event = .clickNode name)
    (absent : layout.find? name = none) : t.outcome cfg = t.before.idle := by
  have hstep := Controller.step_tap cfg t.surface there (.node name)
  rw [Controller.draws, absent] at hstep
  rw [outcome, clicked]
  exact hstep

theorem drawn_outside (there : t.before.layout = some layout) (clicked : t.event = .clickOutside) :
    t.drawn cfg = if t.before.popup = .closed then [] else [.layout layout .closed] := by
  have hstep := Controller.step_tap cfg t.surface there .outside
  rw [drawn, outcome, clicked, show t.before.step cfg t.surface .clickOutside = _ from hstep]
  by_cases closed : t.before.popup = .closed <;>
    simp [Controller.draws, closed, Controller.drawLayout, Controller.popupAfterTap, Effect.view?]

end Told

/-- **What any clicks make of the popup.**  A controller that has come to a layout, in whatever way,
is clicked any number of times, on names and outside.  Without the clicks on names that the layout
does not have, the popup is open on a module afterwards exactly if the module was clicked last, an
odd number of times in a row, where a popup that was open on it from the beginning of the row counts
as one click more; or if nothing is left of the clicks and it was open on the module before.  If
there is no such module, the popup is closed.  Once a click has counted, the popup belongs to the
layout.  Layout, modules, generation and what was put off are
as before.  Each click on a name of the layout draws this layout once, with the popup that it comes
to; one on another name does nothing; and a click outside draws the layout if the popup was open. -/
theorem popup_after_taps (cfg : Controller.Config) (past : List (Turn Event))
    (layout : Layout Float)
    (there : (History.run cfg past).host.controller.layout = some layout)
    (taps : List (Except Failure (Viewport Float) × Tap)) :
    let before := (History.run cfg past).host
    let after := (History.run cfg (past ++ taps.map Tap.turn)).host
    let counted := (taps.map Prod.snd).filter (·.counts layout)
    (∀ name, after.controller.popup.isOpenOn name = true ↔
        OpenAfter before.controller.popup counted name) ∧
      ((∀ name, ¬ OpenAfter before.controller.popup counted name) →
        after.controller.popup = .closed) ∧
      (counted ≠ [] → after.controller.popup.BelongsTo cfg layout) ∧
      after.controller.layout = some layout ∧
      after.controller.modules = before.controller.modules ∧
      after.controller.generation = before.controller.generation ∧
      after.queue = before.queue ∧
      ∃ later : List Told,
        (History.run cfg (past ++ taps.map Tap.turn)).told =
          (History.run cfg past).told ++ later ∧
        later.map Told.event = taps.map (·.2.event) ∧
        ∀ t ∈ later,
          (∀ name, t.event = .clickNode name → (layout.find? name).isSome = true →
            t.drawn cfg = [.layout layout (t.after cfg).popup]) ∧
          (∀ name, t.event = .clickNode name → layout.find? name = none →
            t.outcome cfg = t.before.idle) ∧
          (t.event = .clickOutside →
            t.drawn cfg = if t.before.popup = .closed then [] else [.layout layout .closed]) := by
  intro before after counted
  have h := History.tapped_run there taps
  obtain ⟨later, htold, hevents, hlater⟩ := h.told
  refine ⟨h.popup, ?_, ?_, h.layout_eq there, h.modules_eq, h.generation_eq, h.queue_eq, later,
    htold, hevents, ?_⟩
  · intro hnone
    exact Popup.eq_closed_of_not_open fun name hopen => hnone name ((h.popup name).mp hopen)
  · intro hcounted
    rcases h.belongs with ⟨-, hempty⟩ | hbelongs
    · exact absurd hempty hcounted
    · exact hbelongs
  · intro t ht
    exact ⟨fun name => Told.drawn_of_found (hlater t ht),
      fun name => Told.idle_of_absent (hlater t ht), Told.drawn_outside (hlater t ht)⟩

/-- "a" is drawn, and the popup is opened on it. -/
def openedOnA : List (Turn Event) :=
  ([.recompute [⟨"a", true, false, []⟩], .clickNode "a"] : List Event).map
    fun event => ⟨.ok ⟨1200, 800⟩, .operate event⟩

/-- "a" is clicked twice more, each time behind a name that is not there. -/
def twiceMore : List (Except Failure (Viewport Float) × Tap) :=
  [.node "gone", .node "a", .node "gone", .node "a"].map fun tap =>
    (.error (.raised "no surface"), tap)

theorem popup_after_twiceMore :
    ∃ layout, (History.run .default openedOnA).host.controller.layout = some layout ∧
      (twiceMore.map Prod.snd).filter (·.counts layout) = [.node "a", .node "a"] ∧
      (History.run .default
        (openedOnA ++ twiceMore.map Tap.turn)).host.controller.popup.isOpenOn "a" = true := by
  obtain ⟨layout, there⟩ := Option.isSome_iff_exists.mp
    (by decide +kernel : (History.run .default openedOnA).host.controller.layout.isSome = true)
  have hcounted : ((History.run .default openedOnA).host.controller.layout.map fun layout =>
      (twiceMore.map Prod.snd).filter (·.counts layout)) = some [.node "a", .node "a"] := by
    decide +kernel
  rw [there, Option.map_some, Option.some.injEq] at hcounted
  refine ⟨layout, there, hcounted, ?_⟩
  have h := (popup_after_taps .default openedOnA layout there twiceMore).1 "a"
  rw [hcounted] at h
  exact h.mpr (by decide +kernel)

end Honeycomb
