import Mathlib.Data.List.Forall2
import Honeycomb.Module.Payload
import Honeycomb.Proofs.Json.Reading
import Honeycomb.Proofs.Json.WellFormed

/-!
# What a payload lists

* `Payload.Denotes` — the module that an entry stands for.
* `Payload.entries_eq_ok_iff` — entries are accepted exactly if each stands for a module and no two
  of these share a name.
* `Payload.settled_of_modules`, `Payload.canonical_of_modules` — the settings of every module of a
  payload have distinct keys, none of which is the reserved one, and are in order.
* `Payload.modules_listToJson` — modules that are written as a payload are listed by it.
* `Setting.faithful_fieldsToJson`, `Module.faithful_listToJson` — settings and modules can be told
  from their text, if their numbers can.
-/

set_option autoImplicit false

namespace Honeycomb

namespace Payload

/-! ## Entries -/

/-- An entry stands for a module. -/
def Denotes (entry : Json) (m : Module) : Prop :=
  name? entry = some m.name ∧ toModule entry m.name = m

theorem entry_eq_ok_iff {seen : List Text} {index : Nat} {j : Json} {m : Module} :
    entry seen index j = .ok m ↔ Denotes j m ∧ m.name ∉ seen := by
  have hname : ∀ members name, (toModule (.object members) name).name = name := fun _ _ => rfl
  cases j with
  | object members =>
    rw [entry, Denotes]
    cases hn : name? (.object members) with
    | none => simp
    | some name =>
      by_cases hseen : seen.contains name = true
      · simp only [hseen, if_true, Option.some.injEq]
        refine iff_of_false nofun ?_
        rintro ⟨⟨rfl, -⟩, hm⟩
        exact hm (List.contains_iff_mem.mp hseen)
      · simp only [hseen, Option.some.injEq]
        rw [List.contains_iff_mem] at hseen
        constructor
        · intro h
          cases h
          exact ⟨⟨rfl, rfl⟩, hseen⟩
        · rintro ⟨⟨rfl, hm⟩, -⟩
          simpa using hm
  | _ =>
    refine iff_of_false nofun ?_
    rintro ⟨⟨h, -⟩, -⟩
    cases h

theorem entries_cons_eq_ok_iff {seen : List Text} {index : Nat} {j : Json} {items : List Json}
    {ms : List Module} :
    entries seen index (j :: items) = .ok ms ↔
      ∃ m rest, ms = m :: rest ∧ entry seen index j = .ok m ∧
        entries (m.name :: seen) (index + 1) items = .ok rest := by
  rw [entries]
  cases entry seen index j with
  | error e => simp
  | ok m => cases hrest : entries (m.name :: seen) (index + 1) items <;> simp [hrest, eq_comm]

/-- **Entries are accepted exactly if each stands for a module and no name comes twice**, or was
taken before. -/
theorem entries_eq_ok_iff {seen : List Text} {index : Nat} {items : List Json}
    {ms : List Module} :
    entries seen index items = .ok ms ↔
      List.Forall₂ Denotes items ms ∧ (ms.map (·.name)).Nodup ∧ ∀ m ∈ ms, m.name ∉ seen := by
  induction items generalizing seen index ms with
  | nil =>
    rw [entries, List.forall₂_nil_left_iff]
    constructor
    · intro h
      cases h
      simp
    · rintro ⟨rfl, -⟩
      rfl
  | cons j items ih =>
    rw [entries_cons_eq_ok_iff, List.forall₂_cons_left_iff]
    constructor
    · rintro ⟨m, rest, rfl, hentry, hrest⟩
      obtain ⟨hj, hnew⟩ := entry_eq_ok_iff.mp hentry
      obtain ⟨hall, hnodup, hfree⟩ := ih.mp hrest
      simp only [List.mem_cons, not_or] at hfree
      refine ⟨⟨m, rest, hj, hall, rfl⟩, List.nodup_cons.mpr ⟨?_, hnodup⟩, ?_⟩
      · intro hmem
        obtain ⟨m', hm', hsame⟩ := List.mem_map.mp hmem
        exact (hfree m' hm').1 hsame
      · rw [List.forall_mem_cons]
        exact ⟨hnew, fun m' hm' => (hfree m' hm').2⟩
    · rintro ⟨⟨m, rest, hj, hall, rfl⟩, hnodup, hfree⟩
      obtain ⟨hfirst, hnodup⟩ := List.nodup_cons.mp hnodup
      obtain ⟨hnew, hfree⟩ := List.forall_mem_cons.mp hfree
      refine ⟨m, rest, rfl, entry_eq_ok_iff.mpr ⟨hj, hnew⟩, ih.mpr ⟨hall, hnodup, ?_⟩⟩
      intro m' hm'
      rw [List.mem_cons, not_or]
      exact ⟨fun hsame => hfirst (List.mem_map.mpr ⟨m', hm', hsame⟩), hfree m' hm'⟩

/-- Every module of a payload is what one of its entries stands for. -/
theorem exists_entry_of_modules {raw : Json} {ms : List Module} (h : modules raw = .ok ms)
    {m : Module} (hm : m ∈ ms) :
    ∃ items, raw = .array items ∧ ∃ j ∈ items, Denotes j m := by
  unfold modules at h
  split at h
  · cases h
    cases hm
  · rename_i items
    obtain ⟨hall, -⟩ := entries_eq_ok_iff.mp h
    obtain ⟨i, hi, rfl⟩ := List.getElem_of_mem hm
    have hj : i < items.length := hall.length_eq ▸ hi
    exact ⟨items, rfl, items[i], List.getElem_mem hj, hall.get hj hi⟩
  · cases h

theorem nodup_names_of_modules {raw : Json} {ms : List Module} (h : modules raw = .ok ms) :
    (ms.map (·.name)).Nodup := by
  unfold modules at h
  split at h
  · cases h
    exact List.nodup_nil
  · exact (entries_eq_ok_iff.mp h).2.1
  · cases h

theorem Denotes.name_ne {j : Json} {m : Module} (h : Denotes j m) : m.name ≠ "" := by
  have hname := h.1
  unfold name? at hname
  split at hname
  · split at hname
    · cases hname
    · rename_i hne
      rw [← Option.some.inj hname]
      exact hne
  · cases hname

/-! ## Settings -/

/-- The scalars among the members of an object. -/
theorem settings_sublist {members : Fields Json} :
    (Json.settings (some (.object members))).keys.Sublist members.keys := by
  refine List.Sublist.trans (List.filter_sublist.map _) ?_
  induction members with
  | nil => exact .refl _
  | cons e rest ih =>
    rw [List.filterMap_cons]
    cases Json.setting? e.2 with
    | none => exact ih.cons _
    | some s => exact ih.cons_cons _

/-- Settings that a form can take over: each key stands once and none is the reserved one. -/
structure Settled (fs : Fields Setting) : Prop where
  distinct : fs.Distinct
  unreserved : Fields.reservedKey ∉ fs.keys

theorem reservedKey_not_mem_settings (v : Option Json) :
    Fields.reservedKey ∉ (Json.settings v).keys := by
  unfold Json.settings
  split
  · intro hk
    obtain ⟨e, he, hkey⟩ := List.mem_map.mp hk
    have hne := (List.mem_filter.mp he).2
    rw [hkey] at hne
    simp at hne
  · simp [Fields.keys]

/-- A module has no settings, or those of a member of its entry. -/
theorem settings_of_modules {raw : Json} {ms : List Module} (hms : modules raw = .ok ms)
    {m : Module} (hm : m ∈ ms) :
    m.settings = [] ∨
      ∃ items, raw = .array items ∧ ∃ j ∈ items, ∃ members,
        j.member? "settings" = some (.object members) ∧
          m.settings.keys.Sublist (Fields.keys members) := by
  obtain ⟨items, rfl, j, hj, hdenotes⟩ := exists_entry_of_modules hms hm
  have hsettings : m.settings = Json.settings (j.member? "settings") :=
    congrArg Module.settings hdenotes.2.symm
  cases hv : j.member? "settings" with
  | none =>
    rw [hv] at hsettings
    exact .inl hsettings
  | some v =>
    rw [hv] at hsettings
    cases v with
    | object members =>
      refine .inr ⟨items, rfl, j, hj, members, hv, ?_⟩
      rw [hsettings]
      exact settings_sublist
    | _ => exact .inl hsettings

/-- **The settings of every module of a payload are settled.** -/
theorem settled_of_modules {raw : Json} (h : raw.WellFormed) {ms : List Module}
    (hms : modules raw = .ok ms) {m : Module} (hm : m ∈ ms) : Settled m.settings := by
  refine ⟨?_, ?_⟩
  · rcases settings_of_modules hms hm with hnone | ⟨items, rfl, j, hj, members, hv, hsub⟩
    · rw [hnone]
      exact Fields.distinct_nil
    · cases h with
      | array all =>
        cases (all j hj).member? hv with
        | object distinct _ => exact List.Nodup.sublist hsub distinct
  · obtain ⟨items, rfl, j, hj, hdenotes⟩ := exists_entry_of_modules hms hm
    rw [← congrArg Module.settings hdenotes.2]
    exact reservedKey_not_mem_settings _

/-- **The settings of every module of a payload are in order**, if the members of its objects
are. -/
theorem canonical_of_modules {raw : Json} (h : raw.Ordered) {ms : List Module}
    (hms : modules raw = .ok ms) {m : Module} (hm : m ∈ ms) : m.settings.Canonical := by
  rcases settings_of_modules hms hm with hnone | ⟨items, rfl, j, hj, members, hv, hsub⟩
  · rw [hnone]
    exact List.Pairwise.nil
  · cases h with
    | array all =>
      cases (all j hj).member? hv with
      | object order _ => exact order.of_keys hsub

/-! ## Writing a payload -/

theorem settings_fieldsToJson (fs : Fields Setting) :
    Json.settings (some (Setting.fieldsToJson fs)) = fs.withoutReserved := by
  have hscalar : ∀ s : Setting, Json.setting? s.toJson = some s := by
    intro s
    cases s <;> rfl
  have hall : (fs.mapValues Setting.toJson).filterMap
      (fun e => (Json.setting? e.2).map fun s => (e.1, s)) = fs := by
    simp [Fields.mapValues, List.filterMap_map, hscalar]
  show Fields.withoutReserved _ = _
  rw [hall]

theorem denotes_toJson {m : Module} (hname : m.name ≠ "")
    (hfree : Fields.reservedKey ∉ m.settings.keys) : Denotes m.toJson m := by
  have hflag : ∀ b, Json.isTrue (some (.bool b)) = b := by decide
  refine ⟨?_, ?_⟩
  · show (if m.name = "" then none else some m.name) = some m.name
    rw [if_neg hname]
  · have hsettings : Json.settings (m.toJson.member? "settings") = m.settings := by
      show Json.settings (some (Setting.fieldsToJson m.settings)) = _
      rw [settings_fieldsToJson, Fields.withoutReserved_eq_self hfree]
    have henabled : Json.isTrue (m.toJson.member? "enabled") = m.enabled := hflag m.enabled
    have hcore : (Json.isTrue (m.toJson.member? "is_server") ||
        Json.isTrue (m.toJson.member? "isCore")) = m.isCore := hflag m.isCore
    unfold toModule
    rw [hsettings, henabled, hcore]

/-- **Modules that are written as a payload are listed by it**: their names, in order, and all that
belongs to them. -/
theorem modules_listToJson {ms : List Module} (hnames : (ms.map (·.name)).Nodup)
    (hall : ∀ m ∈ ms, m.name ≠ "" ∧ Fields.reservedKey ∉ m.settings.keys) :
    modules (Module.listToJson ms) = .ok ms := by
  refine entries_eq_ok_iff.mpr ⟨?_, hnames, by simp⟩
  rw [List.forall₂_map_left_iff, List.forall₂_same]
  intro m hm
  exact denotes_toJson (hall m hm).1 (hall m hm).2

end Payload

/-! ## Telling modules from their text -/

open Json (Faithful)

/-- Every number among some settings is finite, and none is the zero that loses its sign. -/
def Setting.Written (fs : Fields Setting) : Prop :=
  ∀ (key : Text) (x : Float), (key, .number x) ∈ fs → x.isFinite = true ∧ x ≠ -0

/-- **Settings can be told from their text**, if they are in order and their numbers can. -/
theorem Setting.faithful_fieldsToJson {fs : Fields Setting} (horder : fs.Canonical)
    (hnumbers : Written fs) : Faithful (fieldsToJson fs) := by
  refine .object (horder.of_keys ?_) ?_
  · rw [Fields.keys_mapValues]
  intro e he
  obtain ⟨⟨key, s⟩, hmem, rfl⟩ := List.mem_map.mp he
  cases s with
  | text t => exact .text t
  | flag b => exact .bool b
  | number x => exact .number (hnumbers key x hmem).1 (hnumbers key x hmem).2

theorem Module.faithful_toJson {m : Module} (horder : m.settings.Canonical)
    (hnumbers : Setting.Written m.settings) : Faithful m.toJson := by
  have hkeys : [Text.ofString "name", "enabled", "isCore", "settings"].Pairwise
      fun key key' => Fields.Precedes (key, ()) (key', ()) := by decide
  refine .object (Fields.canonical_iff_keys.mpr hkeys) ?_
  simp only [List.forall_mem_cons, List.not_mem_nil, false_implies, implies_true, and_true]
  exact ⟨.text _, .bool _, .bool _, Setting.faithful_fieldsToJson horder hnumbers⟩

/-- **Modules can be told from their text.** -/
theorem Module.faithful_listToJson {ms : List Module}
    (h : ∀ m ∈ ms, m.settings.Canonical ∧ Setting.Written m.settings) :
    Faithful (Module.listToJson ms) := by
  refine .array ?_
  intro v hv
  obtain ⟨m, hm, rfl⟩ := List.mem_map.mp hv
  exact Module.faithful_toJson (h m hm).1 (h m hm).2

end Honeycomb
