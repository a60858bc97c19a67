import Mathlib.Data.List.Perm.Basic
import Honeycomb.Element.Draw
import Honeycomb.Element.Click

/-!
# Finding and reading what is drawn

* `pathInside?_eq_none_iff` — a search for a class fails exactly if no element inside has it.
* `inputs_ofPopup` — a popup has one input for every setting, which holds the setting's text.
* `classesInside_ofLayout` — the classes of the elements inside a layout.
* `pathInside?_ofPopup_save` — where the Save button of a popup is.
-/

set_option autoImplicit false

namespace Honeycomb.Element

/-! ## Classes inside an element -/

mutual

/-- The classes of the elements inside an element. -/
def classesInside : Element → List Text
  | ⟨_, _, _, _, _, _, _, _, children⟩ => classesAmong children

/-- The classes of some elements and of those inside them. -/
def classesAmong : List Element → List Text
  | [] => []
  | e :: es => e.classes ++ classesInside e ++ classesAmong es

end

theorem hasClass_eq_false_iff {e : Element} {c : Text} : e.hasClass c = false ↔ c ∉ e.classes := by
  unfold hasClass
  rw [← List.contains_iff_mem, Bool.not_eq_true]

mutual

theorem pathInside?_eq_none_iff (c : Text) (e : Element) :
    e.pathInside? (·.hasClass c) = none ↔ c ∉ e.classesInside := by
  match e with
  | ⟨_, _, _, _, _, _, _, _, children⟩ =>
    rw [pathInside?, Option.map_eq_none_iff, classesInside]
    exact pathAmong?_eq_none_iff c children

theorem pathAmong?_eq_none_iff (c : Text) (es : List Element) :
    pathAmong? (·.hasClass c) es = none ↔ c ∉ classesAmong es := by
  match es with
  | [] => simp [pathAmong?, classesAmong]
  | e :: es =>
    rw [pathAmong?, classesAmong, List.mem_append, List.mem_append, not_or, not_or,
      ← hasClass_eq_false_iff, ← pathInside?_eq_none_iff c e, ← pathAmong?_eq_none_iff c es]
    cases e.hasClass c with
    | true => simp
    | false => cases e.pathInside? (·.hasClass c) <;> simp

end

theorem mem_classesAmong {c : Text} {es : List Element} :
    c ∈ classesAmong es ↔ ∃ e ∈ es, c ∈ e.classes ∨ c ∈ e.classesInside := by
  induction es with
  | nil => simp [classesAmong]
  | cons e es ih => simp [classesAmong, ih, or_assoc]

theorem classesAmong_append (es fs : List Element) :
    classesAmong (es ++ fs) = classesAmong es ++ classesAmong fs := by
  induction es with
  | nil => rfl
  | cons e es ih => simp only [List.cons_append, classesAmong, ih, List.append_assoc]

theorem pathInside?_eq (p : Element → Bool) (e : Element) :
    e.pathInside? p = (pathAmong? p e.children).map (· ++ [e]) := by
  cases e
  rw [pathInside?]

/-- A search passes over elements that have nothing for it. -/
theorem pathAmong?_append {p : Element → Bool} {es : List Element} (h : pathAmong? p es = none)
    (fs : List Element) : pathAmong? p (es ++ fs) = pathAmong? p fs := by
  induction es with
  | nil => rfl
  | cons e es ih =>
    rw [pathAmong?] at h
    rw [List.cons_append, pathAmong?]
    cases he : p e with
    | true => simp [he] at h
    | false =>
      cases hin : e.pathInside? p with
      | some path => simp [he, hin] at h
      | none => exact ih (by simpa [he, hin] using h)

/-! ## Layouts -/

/-- The classes of the elements inside a layout. -/
def layoutClasses : List Text := ["hex-svg", "hex-nodes", "hex-node", "hex-label", "hex-status"]

theorem classesInside_ofNode (hexSize : Float) (node : Node Float) :
    (ofNode hexSize node).classesInside =
      [Text.ofString "hex-label", Text.ofString "hex-status"] := rfl

theorem classesInside_ofLayout (layout : Layout Float) :
    (ofLayout layout).classesInside ⊆ layoutClasses := by
  have hlinks : classesAmong (layout.links.map ofLink) = [] := by
    refine List.eq_nil_iff_forall_not_mem.mpr fun c hc => ?_
    obtain ⟨e, he, hin⟩ := mem_classesAmong.mp hc
    obtain ⟨link, -, rfl⟩ := List.mem_map.mp he
    rcases hin with hin | hin <;> cases hin
  have hnodes : classesAmong (layout.nodes.map (ofNode layout.hexSize)) ⊆ layoutClasses := by
    intro c hc
    obtain ⟨e, he, hin⟩ := mem_classesAmong.mp hc
    obtain ⟨node, -, rfl⟩ := List.mem_map.mp he
    have hclasses : (ofNode layout.hexSize node).classes = [Text.ofString "hex-node"] := rfl
    rw [hclasses, classesInside_ofNode, List.mem_singleton, List.mem_pair] at hin
    rcases hin with rfl | rfl | rfl <;> decide
  have hinside : (ofLayout layout).classesInside =
      Text.ofString "hex-svg" :: classesAmong (layout.links.map ofLink) ++
        (Text.ofString "hex-nodes" ::
          classesAmong (layout.nodes.map (ofNode layout.hexSize)) ++ []) := rfl
  rw [hinside, hlinks, List.append_nil]
  intro c hc
  simp only [List.cons_append, List.nil_append, List.mem_cons] at hc
  rcases hc with rfl | rfl | hc
  · decide
  · decide
  · exact hnodes hc

/-! ## Popups -/

theorem inputs_of_not_isInput {e : Element} (h : e.isInput = false) :
    e.inputs = inputsOfAll e.children := by
  cases e
  rw [inputs, if_neg (by rw [h]; nofun)]

theorem inputsOfAll_append (es fs : List Element) :
    inputsOfAll (es ++ fs) = inputsOfAll es ++ inputsOfAll fs := by
  induction es with
  | nil => rfl
  | cons e es ih => rw [List.cons_append, inputsOfAll, inputsOfAll, ih, List.append_assoc]

/-- The text in which a popup shows a setting. -/
def shownText (m : Module) (key : Text) : Text :=
  ((m.settings.get? key).map Setting.shown).getD ""

/-- The Save button of a popup. -/
def saveButton (m : Module) : Element := button "btn primary save-btn" "Save" (.save m.name)

/-- The buttons of a popup. -/
def buttonRow (m : Module) : Element :=
  (ofClass "div" "popup-actions").withChildren
    ((if m.sortedKeys.isEmpty then [] else [saveButton m]) ++
      [button "btn cancel-btn" "Cancel" .cancel])

/-- What stands above the buttons of a popup. -/
def popupBody (held : Text → Text) (m : Module) : List Element :=
  (html "h3" []).withText m.name :: (if m.isCore then [] else [toggleRow m]) ++
    m.sortedKeys.map (field held m)

theorem children_ofPopup (held : Text → Text) (m : Module) (position : Point Float) :
    (ofPopup held m position).children = popupBody held m ++ [buttonRow m] := rfl

theorem inputs_fields (held : Text → Text) (m : Module) (keys : List Text) :
    inputsOfAll (keys.map (field held m)) =
      keys.map fun key => input held key (shownText m key) := by
  induction keys with
  | nil => rfl
  | cons key rest ih =>
    rw [List.map_cons, inputsOfAll, ih]
    rfl

theorem inputs_buttonRow (m : Module) : (buttonRow m).inputs = [] := by
  unfold buttonRow
  cases m.sortedKeys.isEmpty <;> rfl

/-- **A popup has one input for every setting.** -/
theorem inputs_ofPopup (held : Text → Text) (m : Module) (position : Point Float) :
    (ofPopup held m position).inputs =
      m.sortedKeys.map fun key => input held key (shownText m key) := by
  have htop : inputsOfAll
      ((html "h3" []).withText m.name :: (if m.isCore then [] else [toggleRow m])) = [] := by
    cases m.isCore <;> rfl
  rw [inputs_of_not_isInput rfl, children_ofPopup, popupBody, inputsOfAll_append,
    inputsOfAll_append, htop, inputs_fields, inputsOfAll, inputsOfAll, inputs_buttonRow,
    List.nil_append, List.append_nil, List.append_nil]

/-! ## The Save button -/

/-- The class of the Save button. -/
def saveClass : Text := "save-btn"

theorem classesAmong_toggleRow (m : Module) :
    classesAmong [toggleRow m] =
      if m.enabled then
        [Text.ofString "toggle-row", Text.ofString "toggle-label", Text.ofString "toggle-switch",
          Text.ofString "on", Text.ofString "knob"]
      else
        [Text.ofString "toggle-row", Text.ofString "toggle-label", Text.ofString "toggle-switch",
          Text.ofString "knob"] := by
  unfold toggleRow
  cases m.enabled <;> rfl

theorem saveClass_not_mem_popupBody (held : Text → Text) (m : Module) :
    saveClass ∉ classesAmong (popupBody held m) := by
  have htitle : classesAmong [(html "h3" []).withText m.name] = [] := rfl
  have htoggle : saveClass ∉ classesAmong (if m.isCore then [] else [toggleRow m]) := by
    cases m.isCore
    · show saveClass ∉ classesAmong [toggleRow m]
      rw [classesAmong_toggleRow]
      cases m.enabled <;> decide
    · exact List.not_mem_nil
  have hfields : saveClass ∉ classesAmong (m.sortedKeys.map (field held m)) := by
    intro hc
    obtain ⟨e, he, hin⟩ := mem_classesAmong.mp hc
    obtain ⟨key, -, rfl⟩ := List.mem_map.mp he
    revert hin
    show ¬ (saveClass ∈ [Text.ofString "field"] ∨ saveClass ∈ [])
    decide
  rw [popupBody, ← List.singleton_append, classesAmong_append, classesAmong_append, htitle,
    List.nil_append, List.mem_append, not_or]
  exact ⟨htoggle, hfields⟩

/-- **The Save button is in the row of buttons of a popup with settings.** -/
theorem pathInside?_ofPopup_save (held : Text → Text) (m : Module) (position : Point Float) :
    (ofPopup held m position).pathInside? (·.hasClass saveClass) =
      if m.sortedKeys = [] then none
      else some [saveButton m, buttonRow m, ofPopup held m position] := by
  have hrow : pathAmong? (·.hasClass saveClass) [buttonRow m] =
      if m.sortedKeys = [] then none else some [saveButton m, buttonRow m] := by
    unfold buttonRow
    cases m.sortedKeys <;> rfl
  have hsearch := pathAmong?_append ((pathAmong?_eq_none_iff _ _).mpr
    (saveClass_not_mem_popupBody held m)) [buttonRow m]
  rw [pathInside?_eq, children_ofPopup, hsearch, hrow]
  split <;> rfl

end Honeycomb.Element
