import Honeycomb.Page
import Honeycomb.Proofs.Element
import Honeycomb.Proofs.Module.Payload
import Honeycomb.Proofs.Session
import Honeycomb.Proofs.Setting

/-!
# Saving a popup that nobody typed into

* `typedFields_ofPopup_perm` — what a popup's inputs hold are its settings as texts, or rather what
  inputs hold of these texts.
* `click_save` — a click on Save saves what the inputs hold, before anything else.
* `Page.save_untouched` — the fields sent are the settings, each as its text is read back; they are
  the settings themselves exactly if every value survives.
-/

set_option autoImplicit false

namespace Honeycomb

/-! ## What the inputs hold -/

namespace Element

theorem sortedKeys_perm (m : Module) : m.sortedKeys.Perm m.settings.keys :=
  List.mergeSort_perm _ _

theorem shownText_of_mem {m : Module} (h : m.settings.Distinct) {e : Text × Setting}
    (he : e ∈ m.settings) : shownText m e.1 = e.2.shown := by
  have hget : m.settings.get? e.1 = some e.2 := (Fields.get?_eq_some_iff h).mpr he
  rw [shownText, hget]
  rfl

/-- **What a popup's inputs hold are its settings as texts**, or what inputs hold of these. -/
theorem typedFields_ofPopup_perm (held : Text → Text) {m : Module}
    (h : Payload.Settled m.settings) (position : Point Float) :
    (ofPopup held m position).typedFields.Perm
      (m.settings.mapValues fun v => held v.shown) := by
  have hpairs : (ofPopup held m position).inputs.filterMap
        (fun i => (Fields.get? i.dataset "key").map fun key => (key, i.value.getD "")) =
      m.sortedKeys.map fun key => (key, held (shownText m key)) := by
    rw [inputs_ofPopup, List.filterMap_map]
    show m.sortedKeys.filterMap (some ∘ fun key => (key, held (shownText m key))) = _
    rw [List.filterMap_eq_map]
  have hperm : (m.sortedKeys.map fun key => (key, held (shownText m key))).Perm
      (m.settings.mapValues fun v => held v.shown) := by
    refine ((sortedKeys_perm m).map _).trans (.of_eq ?_)
    unfold Fields.keys Fields.mapValues
    rw [List.map_map]
    refine List.map_congr_left fun e he => ?_
    rw [Function.comp_apply, shownText_of_mem h.distinct he]
  have hkeys : (m.settings.mapValues fun v => held v.shown).keys = m.settings.keys :=
    Fields.keys_mapValues _ _
  have hdistinct : Fields.Distinct (m.settings.mapValues fun v => held v.shown) := by
    rw [Fields.Distinct, hkeys]
    exact h.distinct
  have hset := (Fields.ofPairs_perm (hdistinct.perm hperm.symm)).trans hperm
  have hfree : Fields.reservedKey ∉
      (Fields.ofPairs (m.sortedKeys.map fun key => (key, held (shownText m key)))).keys := by
    intro hr
    refine h.unreserved ?_
    rw [← hkeys]
    exact (hset.map Prod.fst).subset hr
  rw [typedFields, hpairs, Fields.withoutReserved_eq_self hfree]
  exact hset

/-! ## The click on Save -/

/-- **A click on Save saves what the popup's inputs hold, before anything else.** -/
theorem click_save (held : Text → Text) (m : Module) (position : Point Float)
    (container : Element) :
    ∃ further, (click [saveButton m, buttonRow m, ofPopup held m position, container]).intents =
      .save m.name (ofPopup held m position).typedFields :: further := by
  exact ⟨_, rfl⟩

theorem sortedKeys_eq_nil_iff (m : Module) : m.sortedKeys = [] ↔ m.settings = [] := by
  have hlen := (sortedKeys_perm m).length_eq
  rw [Fields.keys, List.length_map] at hlen
  rw [← List.length_eq_zero_iff, hlen, List.length_eq_zero_iff]

theorem pathInside?_drawView_save {m : Module} (container : Element) (held : Text → Text)
    {layout : Layout Float} {node : Node Float} (hnode : layout.find? m.name = some node)
    (hmod : node.module = m) (anchor position : Point Float) :
    let shown := container.drawView held (.layout layout (.opened m.name anchor position))
    shown.pathInside? (·.hasClass saveClass) =
      if m.settings = [] then none
      else some [saveButton m, buttonRow m, ofPopup held m position, shown] := by
  intro shown
  have hchildren : shown.children = [ofLayout layout] ++ [ofPopup held m position] := by
    show ofLayout layout :: popupIn held layout (.opened m.name anchor position) = _
    rw [popupIn, hnode, ← hmod]
    rfl
  have hlayout : pathAmong? (·.hasClass saveClass) [ofLayout layout] = none := by
    rw [pathAmong?_eq_none_iff, classesAmong, classesAmong, List.append_nil, List.mem_append]
    rintro (h | h)
    · revert h
      show saveClass ∉ [Text.ofString "hex-wrap"]
      decide
    · have h := classesInside_ofLayout layout h
      revert h
      decide
  have hpopup : (ofPopup held m position).hasClass saveClass = false := by
    rw [hasClass_eq_false_iff]
    show saveClass ∉ [Text.ofString "hex-popup", Text.ofString "show"]
    decide
  rw [pathInside?_eq, hchildren, pathAmong?_append hlayout, pathAmong?,
    if_neg (by rw [hpopup]; nofun), pathInside?_ofPopup_save]
  simp only [sortedKeys_eq_nil_iff]
  by_cases h : m.settings = []
  · rw [if_pos h, if_pos h]
    rfl
  · rw [if_neg h, if_neg h]
    rfl

end Element

/-! ## The fields sent -/

namespace Page

theorem calls_prefix_tellAll (events : List Event) (s : Session) (r : Record) :
    r.calls <+: (tellAll events s r).2.calls := by
  unfold tellAll
  induction events generalizing s r with
  | nil => exact List.prefix_rfl
  | cons event rest ih =>
    have hhead : r.calls <+: (s.handle operation event r).2.calls := by
      rw [Session.calls_handle]
      exact List.prefix_append _ _
    exact hhead.trans (ih _ _)

theorem calls_prefix_finish (p : Page) (s : Session) (r : Record) :
    r.calls <+: (p.finish s r).2.calls :=
  Session.calls_prefix_settle s r

/-- What the first intent of a click asks for comes first. -/
theorem clickEvents_cons {path : List Element} {first : Intent} {further : List Intent}
    (h : (Element.click path).intents = first :: further) :
    ∃ more, (clickEvents path).1 = eventOf first :: more := by
  unfold clickEvents
  dsimp only
  rw [h]
  split
  · exact ⟨_, rfl⟩
  · exact ⟨_, rfl⟩

/-- The fields of a save are sent before anything else happens. -/
theorem calls_tell_save {p : Page} {s : Session} (hs : p.session = some s) (name : Text)
    (typed : Fields Text) (further : List Event) :
    [Call.update name typed.ofTyped] <+: (p.tell (.save name typed :: further)).2.calls := by
  have hfirst : (s.handle operation (.save name typed) .empty).2.calls =
      [.update name typed.ofTyped] := Session.calls_handle s operation _ _
  rw [← hfirst]
  unfold tell
  rw [hs]
  exact (calls_prefix_tellAll further _ _).trans (calls_prefix_finish _ _ _)

end Page

namespace Setting

/-- The settings that come back when they are shown as texts, of which inputs hold `held`, and read
back. -/
def readBack (held : Text → Text) (settings : Fields Setting) : Fields Setting :=
  settings.mapValues fun v => ofTyped (held v.shown)

theorem ofTyped_perm_readBack {held : Text → Text} {settings : Fields Setting}
    (h : Payload.Settled settings) {typed : Fields Text}
    (ht : typed.Perm (settings.mapValues fun v => held v.shown)) :
    typed.ofTyped.Perm (readBack held settings) := by
  have hkeys : typed.keys.Perm settings.keys := by
    rw [← Fields.keys_mapValues (fun v => held v.shown) settings]
    exact ht.map Prod.fst
  have hfree : Fields.reservedKey ∉ typed.keys := fun hr => h.unreserved (hkeys.subset hr)
  unfold Fields.ofTyped
  rw [Fields.withoutReserved_eq_self hfree]
  refine (ht.map _).trans (.of_eq ?_)
  unfold readBack Fields.mapValues
  rw [List.map_map]
  rfl

theorem mem_readBack_iff {held : Text → Text} {settings : Fields Setting}
    (h : settings.Distinct) {e : Text × Setting} (he : e ∈ settings) :
    e ∈ readBack held settings ↔ ofTyped (held e.2.shown) = e.2 := by
  unfold readBack Fields.mapValues
  rw [List.mem_map]
  constructor
  · rintro ⟨e', he', rfl⟩
    have hsame : e' = (e'.1, ofTyped (held e'.2.shown)) := List.inj_on_of_nodup_map h he' he rfl
    rw [← hsame]
    exact (congrArg Prod.snd hsame).symm
  · intro hv
    refine ⟨e, he, ?_⟩
    show (e.1, ofTyped (held e.2.shown)) = e
    rw [hv]

theorem readBack_perm_iff {held : Text → Text} {settings : Fields Setting}
    (h : settings.Distinct) :
    (readBack held settings).Perm settings ↔
      ∀ e ∈ settings, ofTyped (held e.2.shown) = e.2 := by
  constructor
  · intro hp e he
    exact (mem_readBack_iff h he).mp (hp.symm.subset he)
  · intro hall
    have hid : readBack held settings = settings.map id := by
      refine List.map_congr_left fun e he => ?_
      show (e.1, ofTyped (held e.2.shown)) = e
      rw [hall e he]
    rw [hid, List.map_id]

end Setting

namespace Page

/-- A click on Save sends the settings of the popup's module, as they are read back. -/
theorem calls_save_untouched {m : Module} (hsettled : Payload.Settled m.settings)
    (hne : m.settings ≠ []) {p : Page} {s : Session} (hs : p.session = some s)
    {container : Element} {layout : Layout Float} {anchor position : Point Float}
    (hp : p.container =
      container.drawView p.held (.layout layout (.opened m.name anchor position)))
    {node : Node Float} (hnode : layout.find? m.name = some node) (hmod : node.module = m) :
    ∃ fields more,
      (p.step (.gesture (.clickClass Element.saveClass))).record.calls =
        .update m.name fields :: more ∧
      fields.Perm (Setting.readBack p.held m.settings) := by
  have hpath := Element.pathInside?_drawView_save container p.held hnode hmod anchor position
  rw [← hp] at hpath
  replace hpath := hpath.trans (if_neg hne)
  have hmeet : (Gesture.clickClass Element.saveClass).meet p.held p.container = .click
      [Element.saveButton m, Element.buttonRow m, Element.ofPopup p.held m position,
        p.container] := by
    rw [Gesture.meet, Gesture.clickFirst, hpath]
  obtain ⟨further, hclick⟩ := Element.click_save p.held m position p.container
  obtain ⟨later, hevents⟩ := clickEvents_cons hclick
  obtain ⟨more, hmore⟩ :=
    calls_tell_save hs m.name (Element.ofPopup p.held m position).typedFields later
  refine ⟨(Element.ofPopup p.held m position).typedFields.ofTyped, more, ?_, ?_⟩
  · rw [step, gesture, hmeet]
    show (p.tell (clickEvents _).1).2.calls = _
    rw [hevents]
    exact hmore.symm
  · exact Setting.ofTyped_perm_readBack hsettled
      (Element.typedFields_ofPopup_perm p.held hsettled position)

/-- **Saving a popup that nobody typed into.**  On a page whose inputs are of one line, the fields
sent have the keys of the settings, each with the value that its text without line breaks is read
back as, and an entry is among them exactly if its value survives.  So the settings are sent
unchanged exactly if every value survives. -/
theorem save_untouched {raw : Json} (hraw : raw.WellFormed) {ms : List Module}
    (hms : Payload.modules raw = .ok ms) {m : Module} (hm : m ∈ ms) (hne : m.settings ≠ [])
    {p : Page} {s : Session} (hs : p.session = some s) (hheld : p.held = Text.oneLine)
    {container : Element} {layout : Layout Float} {anchor position : Point Float}
    (hp : p.container =
      container.drawView p.held (.layout layout (.opened m.name anchor position)))
    {node : Node Float} (hnode : layout.find? m.name = some node) (hmod : node.module = m) :
    ∃ fields more,
      (p.step (.gesture (.clickClass Element.saveClass))).record.calls =
        .update m.name fields :: more ∧
      fields.Perm (Setting.readBack Text.oneLine m.settings) ∧
      (∀ e ∈ m.settings, e ∈ fields ↔ e.2.Survives) ∧
      (fields.Perm m.settings ↔ ∀ e ∈ m.settings, e.2.Survives) := by
  have hsettled := Payload.settled_of_modules hraw hms hm
  obtain ⟨fields, more, hcalls, hperm⟩ :=
    calls_save_untouched hsettled hne hs hp hnode hmod
  rw [hheld] at hperm
  refine ⟨fields, more, hcalls, hperm, ?_, ?_⟩
  · intro e he
    rw [hperm.mem_iff, ← Setting.ofTyped_oneLine_shown_iff]
    exact Setting.mem_readBack_iff hsettled.distinct he
  · simp only [← Setting.ofTyped_oneLine_shown_iff]
    rw [← Setting.readBack_perm_iff hsettled.distinct]
    exact ⟨fun h => hperm.symm.trans h, fun h => hperm.trans h⟩

/-! ## A text that looks like a flag -/

/-- A payload with one module, which has a text and a number among its settings. -/
def flaggedPayload : Json :=
  .array [.object [(Text.ofString "name", .text "a"), (Text.ofString "settings",
    .object [(Text.ofString "flag", .text "true"), (Text.ofString "size", .number 2)])]]

/-- The module of that payload. -/
def flagged : Module :=
  ⟨"a", false, false, [(Text.ofString "flag", .text "true"), (Text.ofString "size", .number 2)]⟩

/-- The layout of that module alone. -/
def flaggedLayout : Layout Float := ⟨[⟨flagged, ⟨0, 0⟩, ⟨400, 300⟩, .off⟩], [], 56, ⟨800, 600⟩⟩

/-- A page that shows the popup of that module. -/
def flaggedPage : Page :=
  { container := emptyContainer.drawView Text.oneLine
      (.layout flaggedLayout (.opened "a" ⟨400, 300⟩ ⟨456, 200⟩))
    held := Text.oneLine
    session := some (.start .default ⟨800, 600⟩ .manual) }

theorem wellFormed_flaggedPayload : flaggedPayload.WellFormed := by
  refine .array fun j hj => ?_
  rw [List.mem_singleton] at hj
  subst hj
  refine .object (by decide) fun e he => ?_
  rcases List.mem_pair.mp he with rfl | rfl
  · exact .text _
  · refine .object (by decide) fun e he => ?_
    rcases List.mem_pair.mp he with rfl | rfl
    · exact .text _
    · exact .number _

theorem save_untouched_flagged :
    Payload.modules flaggedPayload = .ok [flagged] ∧
      ∃ fields more,
        (flaggedPage.step (.gesture (.clickClass Element.saveClass))).record.calls =
          .update "a" fields :: more ∧
        fields.Perm (Setting.readBack Text.oneLine flagged.settings) ∧
        (∀ e ∈ flagged.settings, e ∈ fields ↔ e.2.Survives) ∧
        (fields.Perm flagged.settings ↔ ∀ e ∈ flagged.settings, e.2.Survives) := by
  have hms : Payload.modules flaggedPayload = .ok [flagged] := by decide
  have hm : flagged ∈ [flagged] := List.mem_singleton_self _
  have hne : flagged.settings ≠ [] := by decide
  exact ⟨hms, save_untouched wellFormed_flaggedPayload hms hm hne rfl rfl rfl rfl rfl⟩

/-- The text comes back as a flag, though nobody typed anything. -/
theorem untouched_text_becomes_flag :
    (Text.ofString "flag", Setting.text "true") ∈ flagged.settings ∧
      (∃ fields more,
        (flaggedPage.step (.gesture (.clickClass Element.saveClass))).record.calls =
          .update "a" fields :: more ∧
        (Text.ofString "flag", .flag true) ∈ fields ∧
        (Text.ofString "flag", .text "true") ∉ fields) ∧
      ¬ ∀ v : Setting, Setting.ofTyped v.shown = v := by
  have hsettled : Payload.Settled flagged.settings := ⟨by decide, by decide⟩
  have hne : flagged.settings ≠ [] := by decide
  have hback : Setting.readBack flaggedPage.held flagged.settings =
      [(Text.ofString "flag", .flag true), (Text.ofString "size", .number 2)] := by
    decide +kernel
  obtain ⟨fields, more, hcalls, hperm⟩ := calls_save_untouched (p := flaggedPage)
    hsettled hne rfl rfl rfl rfl
  rw [hback] at hperm
  refine ⟨by decide, ⟨fields, more, hcalls, ?_, ?_⟩, fun h => ?_⟩
  · exact hperm.mem_iff.mpr List.mem_cons_self
  · rw [hperm.mem_iff]
    decide
  · exact absurd (h (.text "true")) (by decide)

end Page

end Honeycomb
