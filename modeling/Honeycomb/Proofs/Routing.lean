import Honeycomb.Page
import Honeycomb.Proofs.Click
import Honeycomb.Proofs.Controller.Step
import Honeycomb.Proofs.Session

/-!
# Every click means one thing

* `Page.shown_run` — a page that runs shows a view at any time, but for what was typed.
* `Page.meaning` — what a click means by the nearest node or popup around it.
* `Page.clickEvents_of_spot` — what the actions and the page make of a click is what it means, even
  if the container was emptied before the page hears of the click.
* `Page.every_click_means_one_thing` — so every click on a page comes to one event or to none.
-/

set_option autoImplicit false

namespace Honeycomb.Page

open Element (Alike Bare Control Inside Shows Spot nodeClass popupClass shownNames)

/-! ## A page that runs shows a view -/

/-- Something runs behind the page only if its container holds a view. -/
def Shown (p : Page) : Prop := p.session.isSome = true → ∃ view, Shows p.container p.held view

theorem shows_drawView {container : Element} {held : Text → Text} {view : View}
    (h : Shows container held view) (next : View) :
    Shows (container.drawView held next) held next := by
  have hsame : container.untyped = ((Element.html "div" []).drawView held view).untyped := h
  show (container.drawView held next).untyped =
    ((Element.html "div" []).drawView held next).untyped
  have hredrawn : ∀ e : Element, (e.drawView held next).untyped =
      { e.untyped with
        text := "", children := Element.untypedAll (Element.ofView held next) } := by
    intro e
    cases e
    rfl
  rw [hredrawn, hsame, hredrawn]
  rfl

/-- What is drawn last is what the container holds. -/
theorem shown_finish {p : Page} (h : ∃ view, Shows p.container p.held view) (s : Session)
    (r : Record) : (p.finish s r).1.Shown := by
  intro _
  obtain ⟨view, hview⟩ := h
  show ∃ view, Shows (p.drawn _) p.held view
  unfold drawn
  split
  · exact ⟨view, hview⟩
  · rename_i next _
    exact ⟨next, shows_drawView hview next⟩

theorem shown_tell {p : Page} (h : p.Shown) (events : List Event) : (p.tell events).1.Shown := by
  unfold tell
  split
  · exact h
  · rename_i s hs
    exact shown_finish (h (by rw [hs]; rfl)) _ _

theorem shown_runIn {p : Page} (h : p.Shown) (f : Session → Session × Record) :
    (p.runIn f).1.Shown := by
  unfold runIn
  split
  · exact h
  · rename_i s hs
    exact shown_finish (h (by rw [hs]; rfl)) _ _

/-- A search types nothing. -/
theorem clickFirst_ne_typed (condition : Element → Bool) (root container : Element) :
    Gesture.clickFirst condition root ≠ .typed container := by
  unfold Gesture.clickFirst
  split <;> nofun

theorem shown_gesture {p : Page} (h : p.Shown) (g : Gesture) : (p.gesture g).page.Shown := by
  unfold gesture
  split
  · exact h
  · rename_i container htyped
    intro hsession
    obtain ⟨view, hview⟩ := h hsession
    refine ⟨view, ?_⟩
    cases g with
    | clickClass className => exact absurd htyped (clickFirst_ne_typed _ _ _)
    | clickNode name => exact absurd htyped (clickFirst_ne_typed _ _ _)
    | typeText index value =>
      rw [Gesture.meet] at htyped
      split at htyped
      · cases htyped
        exact (Element.untyped_typeInto (p.held value) index p.container).trans hview
      · cases htyped
  · exact shown_tell h _

/-- One step of a page keeps a view shown. -/
theorem shown_step {p : Page} (h : p.Shown) (i : Input) : (p.step i).page.Shown := by
  cases i with
  | gesture g => exact shown_gesture h g
  | clickContainer => exact shown_tell h _
  | clickOutside => exact shown_tell h _
  | setSurface surface => exact shown_runIn h _
  | setFault message => exact shown_runIn h _
  | resize => exact shown_tell h _
  | setVisible visible => exact shown_tell h _
  | runFrame => exact shown_runIn h _
  | runFrames => exact shown_runIn h _

/-- The first recompute of a page draws a view. -/
theorem views_first (surface : Viewport Float) (service : Service) (modules : List Module) :
    ((Session.start .default surface service).handle operation (.recompute modules)
      .empty).2.views ≠ [] := by
  rw [Session.views_handle]
  have h := Controller.attempt_spec .default (.ok surface)
    (Controller.renewed .initial modules) ⟨1, 0⟩
  show (Record.empty.views ++ ((Controller.renewed .initial modules).attempt .default (.ok surface)
    ⟨1, 0⟩).effects.filterMap Effect.view?) ≠ []
  generalize (Controller.renewed .initial modules).attempt .default (.ok surface) ⟨1, 0⟩ = o at h ⊢
  cases h with
  | stale old => exact absurd rfl old
  | unmeasured _ _ fault => cases fault
  | _ => nofun

theorem shown_startWith (source : Source) (modules : List Module) :
    (startWith source modules).1.Shown := by
  intro _
  have hviews : ∀ (s : Session) (r : Record), r.views ≠ [] →
      ∃ view, Shows ((blank source).finish s r).1.container source.held view := by
    intro s r hr
    show ∃ view, Shows ((blank source).drawn (s.settle r).2) source.held view
    have hgrown : (s.settle r).2.views ≠ [] := fun hnil =>
      hr (List.prefix_nil.mp (hnil ▸ Session.views_prefix_settle s r))
    unfold drawn
    rw [List.getLast?_eq_some_getLast hgrown]
    exact ⟨_, rfl⟩
  have hfirst := views_first source.surface (serviceOf source modules) modules
  unfold startWith
  dsimp only
  split
  · refine hviews _ _ ?_
    rw [Session.views_handle]
    exact List.append_ne_nil_of_left_ne_nil hfirst _
  · exact hviews _ _ hfirst

theorem shown_load (source : Source) : (load source).1.Shown := by
  unfold load
  split
  · nofun
  · split
    · nofun
    · exact shown_startWith source _

theorem shown_steps {p : Page} (h : p.Shown) (inputs : List Input) :
    ∀ e ∈ steps p inputs, e.page.Shown := by
  induction inputs generalizing p with
  | nil =>
    rw [steps]
    exact List.forall_mem_nil _
  | cons i rest ih =>
    have hstep := shown_step h i
    rw [steps]
    exact List.forall_mem_cons.mpr ⟨hstep, ih hstep⟩

/-- **A page that runs shows a view at any time.** -/
theorem shown_run (source : Source) (inputs : List Input) :
    ∀ e ∈ run source inputs, e.page.Shown :=
  List.forall_mem_cons.mpr ⟨shown_load source, shown_steps (shown_load source) inputs⟩

/-! ## What a click means -/

/-- The name that an element is drawn for. -/
def nameOf (e : Element) : Text := (e.attr? "data-name").getD ""

/-- What a click on a control of a popup asks of the controller. -/
def controlEvent (popup : Element) : Control → Event
  | .toggle => .toggle (nameOf popup)
  | .save => .save (nameOf popup) popup.typedFields
  | .cancel => .clickOutside

/-- What a click on a way means, and whether it goes no further.  The nearest node or popup decides:
a node is clicked; in the popup it is the nearest control that counts, if there is one on the way;
and what is neither in a node nor in the popup is outside. -/
def meaning (control : Option Control) : List Element → List Event × Bool
  | [] => ([.clickOutside], false)
  | e :: rest =>
    if e.hasClass nodeClass then ([.clickNode (nameOf e)], true)
    else if e.hasClass popupClass then ((control.map (controlEvent e)).toList, false)
    else meaning (control.or e.control?) rest

/-- The events of a click if the page, which hears of it last, finds the elements of `around` about
the clicked one.  These are fewer than the click passed if the container was emptied meanwhile. -/
def clickEventsWithin (path around : List Element) : List Event × Bool :=
  let click := Element.click path
  let events := click.intents.map eventOf
  if click.stopped || Element.insideNodeOrPopup around then (events, click.stopped)
  else (events ++ [.clickOutside], false)

theorem clickEvents_eq (path : List Element) : clickEvents path = clickEventsWithin path path := rfl

section

variable {before rest path : List Element} {control : Option Control}

theorem meaning_append_plain (h : ∀ x ∈ before, x.Plain) (control : Option Control)
    (rest : List Element) : meaning control (before ++ rest) = meaning control rest := by
  induction before with
  | nil => rfl
  | cons e before ih =>
    obtain ⟨he, hbefore⟩ := List.forall_mem_cons.mp h
    rw [List.cons_append, meaning, if_neg (by rw [he.notNode]; nofun),
      if_neg (by rw [he.notPopup]; nofun), he.notControl, Option.or_none]
    exact ih hbefore

theorem meaning_of_bare (h : ∀ x ∈ path, Bare x) (control : Option Control) :
    meaning control path = ([.clickOutside], false) := by
  induction path generalizing control with
  | nil => rfl
  | cons e path ih =>
    obtain ⟨he, hpath⟩ := List.forall_mem_cons.mp h
    rw [meaning, if_neg (by rw [he.notNode]; nofun), if_neg (by rw [he.notPopup]; nofun)]
    exact ih hpath _

theorem meaning_node {e : Element} {name : Text} (h : e.IsNode name) (control : Option Control)
    (rest : List Element) : meaning control (e :: rest) = ([.clickNode name], true) := by
  rw [meaning, if_pos h.hasClass, nameOf, h.named]
  rfl

theorem meaning_popup {e : Element} {name : Text} (h : e.IsPopup name) (control : Option Control)
    (rest : List Element) :
    meaning control (e :: rest) = ((control.map (controlEvent e)).toList, false) := by
  rw [meaning, if_neg (by rw [h.notNode]; nofun), if_pos h.hasClass]

theorem insideNodeOrPopup_of_mem {e : Element} (hmem : e ∈ path)
    (he : e.hasClass popupClass = true) : Element.insideNodeOrPopup path = true :=
  List.any_eq_true.mpr ⟨e, hmem, by rw [he, Bool.or_true]⟩

theorem insideNodeOrPopup_of_bare (h : ∀ x ∈ path, Bare x) :
    Element.insideNodeOrPopup path = false := by
  refine List.any_eq_false.mpr fun x hx => ?_
  rw [(h x hx).notNode, (h x hx).notPopup]
  nofun

end

/-! ## What comes of a click is what it means -/

/-- Where everything around a click is bare, it is outside. -/
theorem clickEvents_of_bare {path around : List Element} (h : ∀ x ∈ path, Bare x)
    (haround : around ⊆ path) : clickEventsWithin path around = ([.clickOutside], false) := by
  have hclick : Element.click path = ⟨[], false⟩ :=
    Element.clickAlong_of_silent fun x hx => (h x hx).silent
  have hinside := insideNodeOrPopup_of_bare fun x hx => h x (haround hx)
  rw [clickEventsWithin, hclick, hinside]
  rfl

/-- **What comes of a click inside a drawn view is what it means**, whether or not the container
was emptied before the page hears of it. -/
theorem clickEvents_of_spot {names : List Text} {inner outer around : List Element}
    (h : Spot names inner) (houter : ∀ x ∈ outer, Bare x) (hinner : inner ⊆ around)
    (haround : around ⊆ inner ++ outer) :
    clickEventsWithin (inner ++ outer) around = meaning none (inner ++ outer) := by
  have hsilent : ∀ x ∈ outer, x.action = none := fun x hx => (houter x hx).silent
  cases h with
  | elsewhere plain =>
    have hbare : ∀ x ∈ inner ++ outer, Bare x :=
      List.forall_mem_append.mpr ⟨fun x hx => (plain x hx).toBare, houter⟩
    rw [clickEvents_of_bare hbare haround, meaning_of_bare hbare]
  | @node before after e name _ isNode plain =>
    obtain ⟨hbefore, hafter⟩ := List.forall_mem_append.mp plain
    have hpassed : ∀ x ∈ after ++ outer, x.action = none :=
      List.forall_mem_append.mpr ⟨fun x hx => (hafter x hx).silent, hsilent⟩
    have hclick := Element.click_of_action isNode.action (fun x hx => (hbefore x hx).silent) hpassed
    rw [List.append_assoc, List.cons_append, clickEventsWithin, hclick,
      meaning_append_plain hbefore, meaning_node isNode]
    rfl
  | @popup before e name _ isPopup plain =>
    have hclick : Element.click (before ++ e :: outer) = ⟨[], false⟩ :=
      Element.clickAlong_of_silent (List.forall_mem_append.mpr
        ⟨fun x hx => (plain x hx).silent, List.forall_mem_cons.mpr ⟨isPopup.silent, hsilent⟩⟩)
    have hinside := insideNodeOrPopup_of_mem (hinner (by simp : e ∈ before ++ [e]))
      isPopup.hasClass
    rw [List.append_assoc, List.singleton_append, clickEventsWithin, hclick, hinside,
      meaning_append_plain plain, meaning_popup isPopup]
    rfl
  | @control before between e popup c name _ isControl isPopup plain =>
    obtain ⟨hbefore, hbetween⟩ := List.forall_mem_append.mp plain
    have hpassed : ∀ x ∈ between ++ popup :: outer, x.action = none :=
      List.forall_mem_append.mpr ⟨fun x hx => (hbetween x hx).silent,
        List.forall_mem_cons.mpr ⟨isPopup.silent, hsilent⟩⟩
    have hclick := Element.click_of_action isControl.action
      (fun x hx => (hbefore x hx).silent) hpassed
    have htyped : Element.typedAround (before ++ e :: (between ++ popup :: outer)) =
        popup.typedFields := by
      rw [← List.cons_append, ← List.append_assoc]
      refine Element.typedAround_of_isPopup isPopup ?_
      refine List.forall_mem_append.mpr ⟨fun x hx => (hbefore x hx).notPopup, ?_⟩
      exact List.forall_mem_cons.mpr ⟨isControl.notPopup, fun x hx => (hbetween x hx).notPopup⟩
    have hinside := insideNodeOrPopup_of_mem
      (hinner (by simp : popup ∈ before ++ e :: (between ++ [popup]))) isPopup.hasClass
    have hmeaning : meaning none (before ++ e :: (between ++ popup :: outer)) =
        ([controlEvent popup c], false) := by
      rw [meaning_append_plain hbefore, meaning, if_neg (by rw [isControl.notNode]; nofun),
        if_neg (by rw [isControl.notPopup]; nofun), meaning_append_plain hbetween,
        meaning_popup isPopup, isControl.control]
      rfl
    rw [List.append_assoc, List.cons_append, List.append_assoc, List.singleton_append,
      clickEventsWithin, hclick, hinside, hmeaning]
    have hname : nameOf popup = name := by
      rw [nameOf, isPopup.named]
      rfl
    cases c with
    | toggle =>
      rw [controlEvent, hname]
      rfl
    | save =>
      rw [controlEvent, hname, ← htyped]
      rfl
    | cancel => rfl

/-! ## Clicks on a page -/

/-- The container of a page is bare itself. -/
theorem bare_of_shows {container : Element} {held : Text → Text} {view : View}
    (h : Shows container held view) : Bare container :=
  (Alike.plain h ⟨⟨rfl, rfl, rfl⟩, rfl⟩).toBare

/-- What the user clicks in the container lies inside it. -/
theorem inside_of_meet {held : Text → Text} {root : Element} {g : Gesture} {path : List Element}
    (h : g.meet held root = .click path) : ∃ inner, Inside root inner ∧ path = inner ++ [root] := by
  have hfirst : ∀ condition : Element → Bool, Gesture.clickFirst condition root = .click path →
      ∃ inner, Inside root inner ∧ path = inner ++ [root] := by
    intro condition hclick
    unfold Gesture.clickFirst at hclick
    split at hclick
    · cases hclick
    · rename_i found hfound
      cases hclick
      exact Element.inside_of_pathInside? condition root hfound
  cases g with
  | clickClass className => exact hfirst _ h
  | clickNode name => exact hfirst _ h
  | typeText index value =>
    rw [Gesture.meet] at h
    split at h <;> cases h

/-- **Every click on a page means one thing.**  At any time the container shows a view, and what
comes of a click on an element inside it is what the nearest node, or the popup and its nearest
control, mean, in whatever document the container stands and even if the container was emptied
before the document hears of the click.  Nodes and popup are those of modules that the view shows.
A click anywhere else comes to one click outside, and the page tells its session of nothing but
this. -/
theorem every_click_means_one_thing {source : Source} {inputs : List Input} {entry : Entry}
    (hentry : entry ∈ run source inputs) (hsession : entry.page.session.isSome = true) :
    ∃ view : View, Shows entry.page.container entry.page.held view ∧
      (∀ inner outer around : List Element, Inside entry.page.container inner →
        (∀ x ∈ outer, Bare x) →
        around = inner ∨ around = inner ++ entry.page.container :: outer →
          clickEventsWithin (inner ++ entry.page.container :: outer) around =
              meaning none (inner ++ entry.page.container :: outer) ∧
            ∀ e ∈ inner, (e.hasClass nodeClass = true ∨ e.hasClass popupClass = true) →
              ∃ name ∈ shownNames view, e.attr? "data-name" = some name) ∧
      (∀ outer : List Element, (∀ x ∈ outer, Bare x) →
        clickEvents (entry.page.container :: outer) = ([.clickOutside], false) ∧
          clickEvents outer = ([.clickOutside], false)) ∧
      (∀ (g : Gesture) (path : List Element),
        g.meet entry.page.held entry.page.container = .click path →
        (∃ inner, Inside entry.page.container inner ∧ path = inner ++ [entry.page.container]) ∧
          entry.page.gesture g =
            entry.page.entry (some true) (some (meaning none path).2)
              (entry.page.tell (meaning none path).1)) := by
  obtain ⟨view, hshows⟩ := shown_run source inputs entry hentry hsession
  have hcontainer := bare_of_shows hshows
  have hinside : ∀ inner outer around : List Element, Inside entry.page.container inner →
      (∀ x ∈ outer, Bare x) →
      around = inner ∨ around = inner ++ entry.page.container :: outer →
        clickEventsWithin (inner ++ entry.page.container :: outer) around =
          meaning none (inner ++ entry.page.container :: outer) := by
    intro inner outer around hinner houter haround
    have hspot := Element.spot_of_shows hshows hinner
    have hbare := List.forall_mem_cons.mpr ⟨hcontainer, houter⟩
    rcases haround with rfl | rfl
    · exact clickEvents_of_spot hspot hbare (List.Subset.refl _) (List.subset_append_left _ _)
    · exact clickEvents_of_spot hspot hbare (List.subset_append_left _ _) (List.Subset.refl _)
  refine ⟨view, hshows, ?_, ?_, ?_⟩
  · intro inner outer around hinner houter haround
    exact ⟨hinside inner outer around hinner houter haround,
      (Element.spot_of_shows hshows hinner).named⟩
  · intro outer houter
    exact ⟨clickEvents_of_bare (List.forall_mem_cons.mpr ⟨hcontainer, houter⟩)
        (List.Subset.refl _),
      clickEvents_of_bare houter (List.Subset.refl _)⟩
  · intro g path hmeet
    obtain ⟨inner, hinner, rfl⟩ := inside_of_meet hmeet
    refine ⟨⟨inner, hinner, rfl⟩, ?_⟩
    have hmeaning := hinside inner [] _ hinner nofun (.inr rfl)
    rw [← clickEvents_eq] at hmeaning
    rw [gesture, hmeet]
    dsimp only
    rw [hmeaning]

/-- A page with one module. -/
def oneModule : Source :=
  { hasContainer := true
    held := Text.oneLine
    surface := ⟨800, 600⟩
    data := some (.array [.object [(Text.ofString "name", .text "a")]])
    service := ""
    replies := [] }

/-- The page after a click on the node of its module. -/
def popupPage : Page := ((load oneModule).1.step (.gesture (.clickNode "a"))).page

/-- A click on Cancel in the popup that a click on the node has opened means to close it, and that
is all that the page tells its session. -/
theorem cancel_means_outside :
    popupPage.session.isSome = true ∧
      ∃ path,
        (Gesture.clickClass "cancel-btn").meet popupPage.held popupPage.container =
          .click path ∧
        meaning none path = ([.clickOutside], false) ∧
        popupPage.gesture (.clickClass "cancel-btn") =
          popupPage.entry (some true) (some false) (popupPage.tell [.clickOutside]) := by
  have hsession : popupPage.session.isSome = true := by decide +kernel
  have hclick : (popupPage.container.pathInside? (·.hasClass "cancel-btn")).map
      (fun path => (Element.click path, Element.insideNodeOrPopup path)) =
        some (⟨[.cancel], false⟩, true) := by
    decide +kernel
  obtain ⟨path, hpath, hclick⟩ := Option.map_eq_some_iff.mp hclick
  obtain ⟨hclick, haround⟩ := Prod.mk.inj hclick
  have hmeet : (Gesture.clickClass "cancel-btn").meet popupPage.held popupPage.container =
      .click path := by
    rw [Gesture.meet, Gesture.clickFirst, hpath]
  have hevents : clickEvents path = ([.clickOutside], false) := by
    rw [clickEvents, hclick, haround]
    rfl
  have hentry : (load oneModule).1.step (.gesture (.clickNode "a")) ∈
      run oneModule [.gesture (.clickNode "a")] :=
    List.mem_cons_of_mem _ List.mem_cons_self
  obtain ⟨view, -, hinside, -, hgestures⟩ := every_click_means_one_thing hentry hsession
  obtain ⟨⟨inner, hinner, rfl⟩, hgesture⟩ := hgestures _ path hmeet
  obtain ⟨hmeaning, -⟩ := hinside inner [] _ hinner nofun (.inr rfl)
  rw [← clickEvents_eq, hevents] at hmeaning
  rw [← hmeaning] at hgesture
  exact ⟨hsession, _, hmeet, hmeaning.symm, hgesture⟩

end Honeycomb.Page
