import Honeycomb.Proofs.Element

/-!
# Where a click can be, and what the actions on its way ask for

* `Element.Inside` — the ways from the elements inside another one up to it; `inside_of_pathInside?`
  says that a search takes one of them.
* `Element.Alike` — elements that differ in nothing but what was typed; `Element.Shows` — a
  container that holds a view, but for what was typed.
* `Element.Holds` — every way inside an element meets plain elements and at most one of a kind:
  `holds_ofLayout` for the nodes of a layout, `holds_ofPopup` for the controls of a popup.
* `Element.Spot` — where a click inside a drawn view can be; `spot_of_shows` says that this is all.
* `click_of_action` — a click takes the one action that it meets.
-/

set_option autoImplicit false

namespace Honeycomb.Element

/-! ## Ways outwards -/

/-- The way from an element inside another one up to that: the element, those around it from the
inside out, and not the outer one itself. -/
inductive Inside : Element → List Element → Prop
  | child {root e : Element} : e ∈ root.children → Inside root [e]
  | deeper {root e : Element} {path : List Element} :
      e ∈ root.children → Inside e path → Inside root (path ++ [e])

/-- The ways that end in an element: its own, and those from inside it. -/
def EndsIn (e : Element) (path : List Element) : Prop :=
  path = [e] ∨ ∃ deep, Inside e deep ∧ path = deep ++ [e]

theorem inside_iff {root : Element} {path : List Element} :
    Inside root path ↔ ∃ e ∈ root.children, EndsIn e path := by
  constructor
  · intro h
    cases h with
    | child hc => exact ⟨_, hc, .inl rfl⟩
    | deeper hc hdeep => exact ⟨_, hc, .inr ⟨_, hdeep, rfl⟩⟩
  · rintro ⟨e, he, rfl | ⟨deep, hdeep, rfl⟩⟩
    · exact .child he
    · exact .deeper he hdeep

mutual

/-- A search inside an element takes a way up to it. -/
theorem inside_of_pathInside? (p : Element → Bool) (e : Element) {path : List Element}
    (h : e.pathInside? p = some path) : ∃ inner, Inside e inner ∧ path = inner ++ [e] := by
  match e with
  | ⟨tag, d, attrs, style, data, value, text, action, children⟩ =>
    rw [pathInside?] at h
    obtain ⟨inner, hinner, rfl⟩ := Option.map_eq_some_iff.mp h
    exact ⟨inner, inside_iff.mpr (endsIn_of_pathAmong? p children hinner), rfl⟩

theorem endsIn_of_pathAmong? (p : Element → Bool) (es : List Element) {path : List Element}
    (h : pathAmong? p es = some path) : ∃ e ∈ es, EndsIn e path := by
  match es with
  | [] => cases h
  | e :: es =>
    rw [pathAmong?] at h
    split at h
    · exact ⟨e, List.mem_cons_self, .inl (Option.some.inj h).symm⟩
    · split at h
      · rename_i found hfound
        obtain rfl := Option.some.inj h
        exact ⟨e, List.mem_cons_self, .inr (inside_of_pathInside? p e hfound)⟩
      · obtain ⟨c, hc, hends⟩ := endsIn_of_pathAmong? p es h
        exact ⟨c, List.mem_cons_of_mem e hc, hends⟩

end

/-! ## What was typed aside -/

mutual

/-- An element without what was typed into it and into the elements inside it. -/
def untyped : Element → Element
  | ⟨tag, inDrawing, attrs, style, data, _, text, action, children⟩ =>
    ⟨tag, inDrawing, attrs, style, data, none, text, action, untypedAll children⟩

def untypedAll : List Element → List Element
  | [] => []
  | e :: es => untyped e :: untypedAll es

end

theorem untypedAll_eq_map (es : List Element) : untypedAll es = es.map untyped := by
  induction es with
  | nil => rfl
  | cons e es ih => rw [untypedAll, ih, List.map_cons]

theorem children_untyped (e : Element) : e.untyped.children = e.children.map untyped := by
  cases e
  rw [untyped, ← untypedAll_eq_map]

mutual

/-- Typing changes nothing else. -/
theorem untyped_typeInto (value : Text) (index : Nat) (e : Element) :
    (typeInto value index e).untyped = e.untyped := by
  match e with
  | ⟨tag, d, attrs, style, data, old, text, action, children⟩ =>
    unfold typeInto
    split
    · rfl
    · rename_i index _
      dsimp only
      rw [untyped, untyped, untypedAll_typeIntoAll value index children]
    · dsimp only
      rw [untyped, untyped, untypedAll_typeIntoAll value _ children]

theorem untypedAll_typeIntoAll (value : Text) (index : Nat) (es : List Element) :
    untypedAll (typeIntoAll value index es) = untypedAll es := by
  match es with
  | [] => rw [typeIntoAll]
  | e :: es =>
    rw [typeIntoAll]
    split
    · rw [untypedAll, untypedAll, untyped_typeInto value index e]
    · rw [untypedAll, untypedAll, untypedAll_typeIntoAll value _ es]

end

/-- Elements that differ in nothing but what was typed. -/
def Alike (e f : Element) : Prop := e.untyped = f.untyped

namespace Alike

variable {e f : Element}

theorem action_eq (h : Alike e f) : e.action = f.action := by
  cases e
  cases f
  simp only [Alike, untyped, Element.mk.injEq] at h
  exact h.2.2.2.2.2.2.2.1

theorem attrs_eq (h : Alike e f) : e.attrs = f.attrs := by
  cases e
  cases f
  simp only [Alike, untyped, Element.mk.injEq] at h
  exact h.2.2.1

theorem attr?_eq (h : Alike e f) (name : Text) : e.attr? name = f.attr? name := by
  rw [attr?, attr?, h.attrs_eq]

theorem hasClass_eq (h : Alike e f) (c : Text) : e.hasClass c = f.hasClass c := by
  rw [hasClass, hasClass, classes, classes, h.attr?_eq]

theorem exists_child (h : Alike e f) {c : Element} (hc : c ∈ e.children) :
    ∃ c' ∈ f.children, Alike c c' := by
  have hchildren : e.children.map untyped = f.children.map untyped := by
    rw [← children_untyped, ← children_untyped, h]
  obtain ⟨c', hc', hsame⟩ := List.mem_map.mp (hchildren ▸ List.mem_map_of_mem hc)
  exact ⟨c', hc', hsame.symm⟩

/-- Inside alike elements lie alike elements. -/
theorem inside (h : Alike e f) {path : List Element} (hpath : Inside e path) :
    ∃ path', Inside f path' ∧ List.Forall₂ Alike path path' := by
  induction hpath generalizing f with
  | child hc =>
    obtain ⟨c', hc', hsame⟩ := h.exists_child hc
    exact ⟨[c'], .child hc', .cons hsame .nil⟩
  | deeper hc _ ih =>
    obtain ⟨c', hc', hsame⟩ := h.exists_child hc
    obtain ⟨deep', hdeep', halike⟩ := ih hsame
    exact ⟨deep' ++ [c'], .deeper hc' hdeep', List.rel_append halike (.cons hsame .nil)⟩

end Alike

/-- Whether a container holds a view, but for what was typed into it. -/
def Shows (container : Element) (held : Text → Text) (view : View) : Prop :=
  Alike container ((html "div" []).drawView held view)

/-! ## What stands along a way -/

/-- The controls of a popup. -/
inductive Control
  | toggle
  | save
  | cancel
deriving DecidableEq

namespace Control

def className : Control → Text
  | .toggle => "toggle-switch"
  | .save => saveClass
  | .cancel => "cancel-btn"

def action (name : Text) : Control → Action
  | .toggle => .toggle name
  | .save => .save name
  | .cancel => .cancel

end Control

/-- The control that an element is by its class. -/
def control? (e : Element) : Option Control :=
  [Control.toggle, .save, .cancel].find? fun c => e.hasClass c.className

/-- The element is neither a node nor a popup, and has no action. -/
structure Bare (e : Element) : Prop where
  silent : e.action = none
  notNode : e.hasClass nodeClass = false
  notPopup : e.hasClass popupClass = false

/-- The element is no control either. -/
structure Plain (e : Element) : Prop extends Bare e where
  notControl : e.control? = none

/-- The element is the node of a module. -/
structure IsNode (e : Element) (name : Text) : Prop where
  action : e.action = some (.openNode name)
  hasClass : e.hasClass nodeClass = true
  named : e.attr? "data-name" = some name

/-- The element is the popup of a module. -/
structure IsPopup (e : Element) (name : Text) : Prop where
  silent : e.action = none
  notNode : e.hasClass nodeClass = false
  hasClass : e.hasClass popupClass = true
  named : e.attr? "data-name" = some name

/-- The element is a control in the popup of a module. -/
structure IsControl (e : Element) (c : Control) (name : Text) : Prop where
  action : e.action = some (c.action name)
  notNode : e.hasClass nodeClass = false
  notPopup : e.hasClass popupClass = false
  control : e.control? = some c

namespace Alike

variable {e f : Element} {name : Text} {c : Control}

theorem control?_eq (h : Alike e f) : e.control? = f.control? := by
  simp only [control?, h.hasClass_eq]

theorem plain (h : Alike e f) (hf : f.Plain) : e.Plain :=
  ⟨⟨h.action_eq.trans hf.silent, (h.hasClass_eq _).trans hf.notNode,
    (h.hasClass_eq _).trans hf.notPopup⟩, h.control?_eq.trans hf.notControl⟩

theorem isNode (h : Alike e f) (hf : f.IsNode name) : e.IsNode name :=
  ⟨h.action_eq.trans hf.action, (h.hasClass_eq _).trans hf.hasClass, (h.attr?_eq _).trans hf.named⟩

theorem isPopup (h : Alike e f) (hf : f.IsPopup name) : e.IsPopup name :=
  ⟨h.action_eq.trans hf.silent, (h.hasClass_eq _).trans hf.notNode,
    (h.hasClass_eq _).trans hf.hasClass, (h.attr?_eq _).trans hf.named⟩

theorem isControl (h : Alike e f) (hf : f.IsControl c name) : e.IsControl c name :=
  ⟨h.action_eq.trans hf.action, (h.hasClass_eq _).trans hf.notNode,
    (h.hasClass_eq _).trans hf.notPopup, h.control?_eq.trans hf.control⟩

theorem forall_plain {path path' : List Element} (h : List.Forall₂ Alike path path')
    (hplain : ∀ x ∈ path', Plain x) : ∀ x ∈ path, Plain x := by
  induction h with
  | nil => nofun
  | cons halike _ ih =>
    obtain ⟨hhead, htail⟩ := List.forall_mem_cons.mp hplain
    exact List.forall_mem_cons.mpr ⟨halike.plain hhead, ih htail⟩

/-- Where one of two ways has parts, so has the other one. -/
theorem exists_append {path before rest : List Element}
    (h : List.Forall₂ Alike path (before ++ rest)) :
    ∃ before' rest', path = before' ++ rest' ∧ List.Forall₂ Alike before' before ∧
      List.Forall₂ Alike rest' rest :=
  ⟨_, _, (List.take_append_drop before.length path).symm, List.forall₂_take_append _ _ _ h,
    List.forall₂_drop_append _ _ _ h⟩

end Alike

/-- Where a click inside a drawn view can be: in a node, in a control of the popup, elsewhere in the
popup, or elsewhere. -/
inductive Spot (names : List Text) : List Element → Prop
  | elsewhere {path : List Element} (plain : ∀ x ∈ path, Plain x) : Spot names path
  | node {before after : List Element} {e : Element} {name : Text} (mem : name ∈ names)
      (isNode : e.IsNode name) (plain : ∀ x ∈ before ++ after, Plain x) :
      Spot names (before ++ e :: after)
  | popup {before : List Element} {e : Element} {name : Text} (mem : name ∈ names)
      (isPopup : e.IsPopup name) (plain : ∀ x ∈ before, Plain x) : Spot names (before ++ [e])
  | control {before between : List Element} {e popup : Element} {c : Control} {name : Text}
      (mem : name ∈ names) (isControl : e.IsControl c name) (isPopup : popup.IsPopup name)
      (plain : ∀ x ∈ before ++ between, Plain x) :
      Spot names (before ++ e :: (between ++ [popup]))

/-- The nodes and popups along a way are drawn for modules. -/
theorem Spot.named {names : List Text} {path : List Element} (h : Spot names path) :
    ∀ e ∈ path, (e.hasClass nodeClass = true ∨ e.hasClass popupClass = true) →
      ∃ name ∈ names, e.attr? "data-name" = some name := by
  have hnone : ∀ {e : Element}, e.hasClass nodeClass = false → e.hasClass popupClass = false →
      (e.hasClass nodeClass = true ∨ e.hasClass popupClass = true) →
        ∃ name ∈ names, e.attr? "data-name" = some name := by
    intro e hnode hpopup hclass
    rw [hnode, hpopup] at hclass
    rcases hclass with hclass | hclass <;> cases hclass
  have hplain : ∀ {es : List Element}, (∀ x ∈ es, Plain x) →
      ∀ e ∈ es, (e.hasClass nodeClass = true ∨ e.hasClass popupClass = true) →
        ∃ name ∈ names, e.attr? "data-name" = some name := fun hes e he =>
    hnone (hes e he).notNode (hes e he).notPopup
  cases h with
  | elsewhere plain => exact hplain plain
  | node mem isNode plain =>
    obtain ⟨hbefore, hafter⟩ := List.forall_mem_append.mp plain
    exact List.forall_mem_append.mpr ⟨hplain hbefore,
      List.forall_mem_cons.mpr ⟨fun _ => ⟨_, mem, isNode.named⟩, hplain hafter⟩⟩
  | popup mem isPopup plain =>
    exact List.forall_mem_append.mpr ⟨hplain plain,
      List.forall_mem_singleton.mpr fun _ => ⟨_, mem, isPopup.named⟩⟩
  | control mem isControl isPopup plain =>
    obtain ⟨hbefore, hbetween⟩ := List.forall_mem_append.mp plain
    exact List.forall_mem_append.mpr ⟨hplain hbefore,
      List.forall_mem_cons.mpr ⟨hnone isControl.notNode isControl.notPopup,
        List.forall_mem_append.mpr ⟨hplain hbetween,
          List.forall_mem_singleton.mpr fun _ => ⟨_, mem, isPopup.named⟩⟩⟩⟩

/-- What was typed makes no difference to where a click is. -/
theorem Spot.of_alike {names : List Text} {path path' : List Element} (h : Spot names path')
    (halike : List.Forall₂ Alike path path') : Spot names path := by
  cases h with
  | elsewhere plain => exact .elsewhere (Alike.forall_plain halike plain)
  | node mem isNode plain =>
    obtain ⟨before, _, rfl, hbefore, hrest⟩ := Alike.exists_append halike
    cases hrest with
    | cons he hafter =>
      exact .node mem (he.isNode isNode) (Alike.forall_plain (List.rel_append hbefore hafter) plain)
  | popup mem isPopup plain =>
    obtain ⟨before, _, rfl, hbefore, hrest⟩ := Alike.exists_append halike
    cases hrest with
    | cons he hnil =>
      cases hnil
      exact .popup mem (he.isPopup isPopup) (Alike.forall_plain hbefore plain)
  | control mem isControl isPopup plain =>
    obtain ⟨before, _, rfl, hbefore, hrest⟩ := Alike.exists_append halike
    cases hrest with
    | cons he hrest =>
      obtain ⟨between, _, rfl, hbetween, hrest⟩ := Alike.exists_append hrest
      cases hrest with
      | cons hpopup hnil =>
        cases hnil
        exact .control mem (he.isControl isControl) (hpopup.isPopup isPopup)
          (Alike.forall_plain (List.rel_append hbefore hbetween) plain)

/-! ## What lies inside a drawn view -/

/-- Everything inside an element is plain. -/
def Still (e : Element) : Prop := ∀ path, Inside e path → ∀ x ∈ path, Plain x

/-- A way meets one element of a kind, and otherwise plain ones. -/
def Meets (kind : Element → Prop) (path : List Element) : Prop :=
  ∃ before e after, path = before ++ e :: after ∧ kind e ∧ ∀ x ∈ before ++ after, Plain x

/-- Every way inside an element meets plain elements and at most one of a kind. -/
def Holds (kind : Element → Prop) (e : Element) : Prop :=
  ∀ path, Inside e path → (∀ x ∈ path, Plain x) ∨ Meets kind path

section

variable {kind : Element → Prop} {e : Element}

theorem still_of_children (h : ∀ c ∈ e.children, Plain c ∧ Still c) : Still e := by
  intro path hpath
  cases hpath with
  | child hc => exact List.forall_mem_singleton.mpr (h _ hc).1
  | deeper hc hdeep =>
    exact List.forall_mem_append.mpr
      ⟨(h _ hc).2 _ hdeep, List.forall_mem_singleton.mpr (h _ hc).1⟩

theorem still_of_no_children (h : e.children = []) : Still e := by
  refine still_of_children fun c hc => ?_
  rw [h] at hc
  cases hc

theorem Still.holds (h : Still e) : Holds kind e := fun path hpath => .inl (h path hpath)

/-- A way goes on from every child that is plain, and ends its search in one of the kind. -/
theorem holds_of_children
    (h : ∀ c ∈ e.children, (Plain c ∧ Holds kind c) ∨ (kind c ∧ Still c)) : Holds kind e := by
  intro path hpath
  cases hpath with
  | @child _ c hc =>
    rcases h c hc with ⟨hplain, -⟩ | ⟨hkind, -⟩
    · exact .inl (List.forall_mem_singleton.mpr hplain)
    · exact .inr ⟨[], c, [], rfl, hkind, nofun⟩
  | @deeper _ c deep hc hdeep =>
    rcases h c hc with ⟨hplain, hholds⟩ | ⟨hkind, hstill⟩
    · rcases hholds deep hdeep with hall | ⟨before, x, after, rfl, hx, hall⟩
      · exact .inl (List.forall_mem_append.mpr ⟨hall, List.forall_mem_singleton.mpr hplain⟩)
      · refine .inr ⟨before, x, after ++ [c], by simp, hx, ?_⟩
        rw [← List.append_assoc]
        exact List.forall_mem_append.mpr ⟨hall, List.forall_mem_singleton.mpr hplain⟩
    · refine .inr ⟨deep, c, [], rfl, hkind, ?_⟩
      rw [List.append_nil]
      exact hstill deep hdeep

end

/-! ### Layouts -/

theorem isNode_ofNode (hexSize : Float) (node : Node Float) :
    IsNode (ofNode hexSize node) node.module.name := ⟨rfl, rfl, rfl⟩

theorem still_ofNode (hexSize : Float) (node : Node Float) : Still (ofNode hexSize node) := by
  have hhexagon : ∀ fill : Text, Still (hexagon hexSize fill) := by
    refine fun fill => still_of_children fun c hc => ?_
    rw [List.mem_singleton.mp hc]
    exact ⟨⟨⟨rfl, rfl, rfl⟩, rfl⟩, still_of_no_children rfl⟩
  refine still_of_children fun c hc => ?_
  simp only [ofNode, withAction, withChildren, List.mem_cons, List.not_mem_nil, or_false] at hc
  rcases hc with rfl | rfl | rfl
  · exact ⟨⟨⟨rfl, rfl, rfl⟩, rfl⟩, hhexagon _⟩
  · exact ⟨⟨⟨rfl, rfl, rfl⟩, rfl⟩, still_of_no_children rfl⟩
  · exact ⟨⟨⟨rfl, rfl, rfl⟩, rfl⟩, still_of_no_children rfl⟩

theorem plain_ofLayout (layout : Layout Float) : Plain (ofLayout layout) := ⟨⟨rfl, rfl, rfl⟩, rfl⟩

/-- **A layout holds its nodes**, and otherwise nothing that a click means anything to. -/
theorem holds_ofLayout (layout : Layout Float) :
    Holds (fun e => ∃ name ∈ layout.names, e.IsNode name) (ofLayout layout) := by
  refine holds_of_children fun c hc => ?_
  simp only [ofLayout, withChildren, List.mem_cons, List.not_mem_nil, or_false] at hc
  rcases hc with rfl | rfl
  · -- the links
    refine .inl ⟨⟨⟨rfl, rfl, rfl⟩, rfl⟩, (still_of_children fun c hc => ?_).holds⟩
    obtain ⟨link, -, rfl⟩ := List.mem_map.mp hc
    exact ⟨⟨⟨rfl, rfl, rfl⟩, rfl⟩, still_of_no_children rfl⟩
  · refine .inl ⟨⟨⟨rfl, rfl, rfl⟩, rfl⟩, holds_of_children fun c hc => ?_⟩
    obtain ⟨node, hnode, rfl⟩ := List.mem_map.mp hc
    exact .inr ⟨⟨_, List.mem_map_of_mem hnode, isNode_ofNode _ node⟩, still_ofNode _ node⟩

/-! ### Popups -/

theorem isPopup_ofPopup (held : Text → Text) (m : Module) (position : Point Float) :
    IsPopup (ofPopup held m position) m.name := ⟨rfl, rfl, rfl, rfl⟩

/-- The toggle of a popup is a control. -/
theorem holds_toggleRow (m : Module) :
    Holds (fun e => ∃ c, e.IsControl c m.name) (toggleRow m) := by
  refine holds_of_children fun c hc => ?_
  simp only [toggleRow, withChildren, List.mem_cons, List.not_mem_nil, or_false] at hc
  rcases hc with rfl | rfl
  · exact .inl ⟨⟨⟨rfl, rfl, rfl⟩, rfl⟩, (still_of_no_children rfl).holds⟩
  · refine .inr ⟨⟨.toggle, ?_⟩, still_of_children fun c hc => ?_⟩
    · cases m.enabled <;> exact ⟨rfl, rfl, rfl, rfl⟩
    · rw [List.mem_singleton.mp hc]
      exact ⟨⟨⟨rfl, rfl, rfl⟩, rfl⟩, still_of_no_children rfl⟩

theorem still_field (held : Text → Text) (m : Module) (key : Text) : Still (field held m key) := by
  refine still_of_children fun c hc => ?_
  simp only [field, withChildren, List.mem_cons, List.not_mem_nil, or_false] at hc
  rcases hc with rfl | rfl
  · exact ⟨⟨⟨rfl, rfl, rfl⟩, rfl⟩, still_of_no_children rfl⟩
  · exact ⟨⟨⟨rfl, rfl, rfl⟩, rfl⟩, still_of_no_children rfl⟩

/-- The buttons of a popup are controls. -/
theorem holds_buttonRow (m : Module) :
    Holds (fun e => ∃ c, e.IsControl c m.name) (buttonRow m) := by
  have hsave : ∃ c, (saveButton m).IsControl c m.name := ⟨.save, rfl, rfl, rfl, rfl⟩
  refine holds_of_children fun c hc => .inr ?_
  simp only [buttonRow, withChildren, List.mem_append, List.mem_singleton] at hc
  rcases hc with hc | rfl
  · split at hc
    · cases hc
    · rw [List.mem_singleton.mp hc]
      exact ⟨hsave, still_of_no_children rfl⟩
  · exact ⟨⟨.cancel, rfl, rfl, rfl, rfl⟩, still_of_no_children rfl⟩

/-- **A popup holds its controls**, and otherwise nothing that a click means anything to. -/
theorem holds_ofPopup (held : Text → Text) (m : Module) (position : Point Float) :
    Holds (fun e => ∃ c, e.IsControl c m.name) (ofPopup held m position) := by
  refine holds_of_children fun c hc => .inl ?_
  rw [children_ofPopup, popupBody] at hc
  simp only [List.mem_append, List.mem_cons, List.not_mem_nil, or_false] at hc
  rcases hc with ((rfl | hc) | hc) | rfl
  · exact ⟨⟨⟨rfl, rfl, rfl⟩, rfl⟩, (still_of_no_children rfl).holds⟩
  · split at hc
    · cases hc
    · rw [List.mem_singleton.mp hc]
      exact ⟨⟨⟨rfl, rfl, rfl⟩, rfl⟩, holds_toggleRow m⟩
  · obtain ⟨key, -, rfl⟩ := List.mem_map.mp hc
    exact ⟨⟨⟨rfl, rfl, rfl⟩, rfl⟩, (still_field held m key).holds⟩
  · exact ⟨⟨⟨rfl, rfl, rfl⟩, rfl⟩, holds_buttonRow m⟩

/-! ### Views -/

/-- The names of the nodes that a view shows, be it under an error message. -/
def shownNames : View → List Text
  | .layout layout _ => layout.names
  | .error _ (some layout) => layout.names
  | _ => []

section

variable {held : Text → Text} {names : List Text} {path : List Element}

theorem spot_of_layout {layout : Layout Float} (hpath : EndsIn (ofLayout layout) path) :
    Spot layout.names path := by
  have htop := List.forall_mem_singleton.mpr (plain_ofLayout layout)
  rcases hpath with rfl | ⟨deep, hdeep, rfl⟩
  · exact .elsewhere htop
  rcases holds_ofLayout layout deep hdeep with
    hall | ⟨before, e, after, rfl, ⟨name, hmem, he⟩, hall⟩
  · exact .elsewhere (List.forall_mem_append.mpr ⟨hall, htop⟩)
  · rw [List.append_assoc, List.cons_append]
    refine .node hmem he ?_
    rw [← List.append_assoc]
    exact List.forall_mem_append.mpr ⟨hall, htop⟩

theorem spot_of_popup {m : Module} {position : Point Float} (hmem : m.name ∈ names)
    (hpath : EndsIn (ofPopup held m position) path) : Spot names path := by
  have hpopup := isPopup_ofPopup held m position
  rcases hpath with rfl | ⟨deep, hdeep, rfl⟩
  · rw [← List.nil_append [ofPopup held m position]]
    exact .popup hmem hpopup nofun
  rcases holds_ofPopup held m position deep hdeep with
    hall | ⟨before, e, after, rfl, ⟨c, he⟩, hall⟩
  · exact .popup hmem hpopup hall
  · rw [List.append_assoc, List.cons_append]
    exact .control hmem he hpopup hall

theorem spot_of_message {className color text : Text}
    (hplain : Plain (message className color text))
    (hpath : EndsIn (message className color text) path) : Spot names path := by
  have htop := List.forall_mem_singleton.mpr hplain
  rcases hpath with rfl | ⟨deep, hdeep, rfl⟩
  · exact .elsewhere htop
  · exact .elsewhere (List.forall_mem_append.mpr ⟨still_of_no_children rfl deep hdeep, htop⟩)

end

/-- **Where a click inside a drawn view can be.** -/
theorem spot_of_shows {container : Element} {held : Text → Text} {view : View}
    (h : container.Shows held view) {path : List Element} (hpath : Inside container path) :
    Spot (shownNames view) path := by
  obtain ⟨path', hpath', halike⟩ := Alike.inside h hpath
  refine Spot.of_alike ?_ halike
  obtain ⟨e, he, hends⟩ := inside_iff.mp hpath'
  have he : e ∈ ofView held view := he
  have hplaceholder : ∀ text, Plain (message "hex-placeholder" Palette.muted text) := fun _ =>
    ⟨⟨rfl, rfl, rfl⟩, rfl⟩
  have herror : ∀ text, Plain (message "hex-error" Palette.error text) := fun _ =>
    ⟨⟨rfl, rfl, rfl⟩, rfl⟩
  cases view with
  | layout layout popup =>
    rcases List.mem_cons.mp he with rfl | he
    · exact spot_of_layout hends
    cases popup with
    | closed => cases he
    | opened name anchor position =>
      rw [popupIn] at he
      split at he
      · cases he
      · rename_i node hfound
        obtain rfl := List.mem_singleton.mp he
        exact spot_of_popup (List.mem_map_of_mem (List.mem_of_find?_eq_some hfound)) hends
  | error text previous =>
    rcases List.mem_append.mp he with he | he
    · cases previous with
      | none => cases he
      | some layout =>
        obtain rfl := List.mem_singleton.mp he
        exact spot_of_layout hends
    · obtain rfl := List.mem_singleton.mp he
      exact spot_of_message (herror _) hends
  | empty =>
    obtain rfl := List.mem_singleton.mp he
    exact spot_of_message (hplaceholder _) hends
  | waiting surface attempt =>
    obtain rfl := List.mem_singleton.mp he
    exact spot_of_message (hplaceholder _) hends
  | unavailable surface =>
    obtain rfl := List.mem_singleton.mp he
    exact spot_of_message (hplaceholder _) hends

/-! ## What the actions along a way ask for -/

section

variable {path before rest : List Element}

/-- A click passes elements without an action. -/
theorem clickAlong_append (path : List Element) (h : ∀ x ∈ before, x.action = none)
    (rest : List Element) : clickAlong path (before ++ rest) = clickAlong path rest := by
  induction before with
  | nil => rfl
  | cons e before ih =>
    obtain ⟨he, hbefore⟩ := List.forall_mem_cons.mp h
    rw [List.cons_append, clickAlong, he]
    exact ih hbefore

theorem clickAlong_of_silent (h : ∀ x ∈ rest, x.action = none) :
    clickAlong path rest = ⟨[], false⟩ := by
  have hpass := clickAlong_append path h []
  rwa [List.append_nil] at hpass

/-- Where one element has an action, a click takes this action alone. -/
theorem click_of_action {after : List Element} {e : Element} {a : Action} (ha : e.action = some a)
    (hbefore : ∀ x ∈ before, x.action = none) (hafter : ∀ x ∈ after, x.action = none) :
    click (before ++ e :: after) = ⟨[intent (before ++ e :: after) a], stops a⟩ := by
  rw [click, clickAlong_append _ hbefore, clickAlong, ha]
  dsimp only
  rw [clickAlong_of_silent hafter]
  cases stops a <;> rfl

/-- The popup whose texts are saved is the one around the click. -/
theorem typedAround_of_isPopup {popup : Element} {name : Text} (h : popup.IsPopup name)
    (hbefore : ∀ x ∈ before, x.hasClass popupClass = false) :
    typedAround (before ++ popup :: rest) = popup.typedFields := by
  have hnone : before.find? (·.hasClass popupClass) = none :=
    List.find?_eq_none.mpr fun x hx => by rw [hbefore x hx]; exact Bool.false_ne_true
  have hhere : (popup :: rest).find? (·.hasClass popupClass) = some popup :=
    List.find?_cons_of_pos h.hasClass
  have hfind : (before ++ popup :: rest).find? (·.hasClass popupClass) = some popup := by
    rw [List.find?_append, hnone, hhere]
    rfl
  rw [typedAround, hfind]

end

end Honeycomb.Element
