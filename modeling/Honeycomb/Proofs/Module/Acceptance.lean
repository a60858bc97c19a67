import Honeycomb.Proofs.Module.Payload

/-!
# Which payloads are accepted

A payload is looked at entry by entry, and the names of the entries so far are kept.  What comes of
it can be said without any order of looking.

* `Payload.Named`, `Payload.Describes` — what an entry must have, and what it says of its module.
* `Payload.Flaw`, `Payload.FlawedAt` — what can be wrong with an entry: three flaws, each of which
  presumes that the ones before are absent.
* `entries_eq_error_iff` — reading stops with the flaw of the first entry that has one.
* `modules_spec` — which payloads are accepted, with which modules, and why others are refused.
-/

set_option autoImplicit false

namespace Honeycomb

/-- Whether a value is a text, a number or a boolean. -/
def Json.isScalar : Json → Bool
  | .text _ | .number _ | .bool _ => true
  | _ => false

namespace Payload

/-- An entry has a name: a text that is not empty. -/
structure Named (entry : Json) (name : Text) : Prop where
  member : entry.member? "name" = some (.text name)
  nonempty : name ≠ ""

/-- What an entry says of its module.  The settings are the scalar members of an object, as far as
their keys are allowed, in their order; without such an object there are none. -/
structure Describes (entry : Json) (m : Module) : Prop where
  named : Named entry m.name
  enabled : m.enabled = true ↔ entry.member? "enabled" = some (.bool true)
  core : m.isCore = true ↔
    entry.member? "is_server" = some (.bool true) ∨ entry.member? "isCore" = some (.bool true)
  settings : ∀ members, entry.member? "settings" = some (.object members) →
    m.settings.mapValues Setting.toJson =
      members.filter fun e => e.2.isScalar && e.1 != Text.ofString "__proto__"
  bare : (∀ members, entry.member? "settings" ≠ some (.object members)) → m.settings = []

/-- What is wrong with an entry at an index, if some names are taken. -/
inductive Flaw (taken : Text → Prop) (index : Nat) (entry : Json) : PayloadError → Prop
  | notAnObject (other : ∀ members, entry ≠ .object members) :
      Flaw taken index entry (.notAnObject index)
  | unnamed {members : Fields Json} (object : entry = .object members)
      (nameless : ∀ name, ¬ Named entry name) : Flaw taken index entry (.unnamed index)
  | duplicate {name : Text} (named : Named entry name) (again : taken name) :
      Flaw taken index entry (.duplicate name)

/-- What is wrong with one of some entries: the names of those before it are taken. -/
def FlawedAt (items : List Json) (i : Nat) (e : PayloadError) : Prop :=
  ∃ entry, items[i]? = some entry ∧
    Flaw (fun name => ∃ earlier ∈ items.take i, Named earlier name) i entry e

/-! ## Names and descriptions -/

theorem name?_eq_some_iff {entry : Json} {name : Text} :
    name? entry = some name ↔ Named entry name := by
  unfold name?
  split
  · rename_i t hmember
    split
    · rename_i hempty
      refine iff_of_false (fun h => by cases h) ?_
      rintro ⟨hname, hne⟩
      rw [hmember] at hname
      cases hname
      exact hne hempty
    · rename_i hne
      constructor
      · intro h
        cases h
        exact ⟨hmember, hne⟩
      · rintro ⟨hname, -⟩
        rw [hmember] at hname
        cases hname
        rfl
  · rename_i hother
    refine iff_of_false (fun h => by cases h) ?_
    rintro ⟨hname, -⟩
    exact hother _ hname

/-- An entry has one name. -/
theorem Named.unique {entry : Json} {name name' : Text} (h : Named entry name)
    (h' : Named entry name') : name = name' := by
  have hsame := h.member.symm.trans h'.member
  cases hsame
  rfl

/-- Only an object has a name. -/
theorem Named.object {entry : Json} {name : Text} (h : Named entry name) :
    ∃ members, entry = .object members := by
  obtain ⟨hmember, -⟩ := h
  cases entry with
  | object members => exact ⟨members, rfl⟩
  | _ => cases hmember

theorem isTrue_iff {v : Option Json} : Json.isTrue v = true ↔ v = some (.bool true) := by
  unfold Json.isTrue
  split
  · simp
  · rename_i hother
    exact iff_of_false Bool.false_ne_true hother

/-- A setting is written as the scalar that it was read from. -/
theorem toJson_setting? (v : Json) :
    (Json.setting? v).map Setting.toJson = if v.isScalar then some v else none := by
  cases v <;> rfl

/-- Written out again, the settings of an object are its scalar members, the reserved key apart. -/
theorem mapValues_settings (members : Fields Json) :
    (Json.settings (some (.object members))).mapValues Setting.toJson =
      members.filter fun e => e.2.isScalar && e.1 != Text.ofString "__proto__" := by
  show ((members.filterMap fun e => (Json.setting? e.2).map fun s => (e.1, s)).filter
      (·.1 != Text.ofString "__proto__")).map (fun e => (e.1, e.2.toJson)) = _
  induction members with
  | nil => rfl
  | cons e rest ih =>
    have hwritten := toJson_setting? e.2
    cases hs : Json.setting? e.2 with
    | none =>
      have hother : e.2.isScalar = false := by simpa [hs] using hwritten
      rw [List.filterMap_cons_none (by rw [hs]; rfl), ih,
        List.filter_cons_of_neg (by simp [hother])]
    | some s =>
      rw [hs, Option.map_some] at hwritten
      split at hwritten
      · rename_i hscalar
        rw [List.filterMap_cons_some (by rw [hs]; rfl)]
        by_cases hkey : e.1 = Text.ofString "__proto__"
        · rw [List.filter_cons_of_neg (by simp [hkey]), ih,
            List.filter_cons_of_neg (by simp [hkey])]
        · rw [List.filter_cons_of_pos (by simp [hkey]), List.map_cons, ih,
            List.filter_cons_of_pos (by simp [hscalar, hkey]), Option.some.inj hwritten]
      · cases hwritten

/-- An entry describes one module. -/
theorem Describes.unique {entry : Json} {m m' : Module} (h : Describes entry m)
    (h' : Describes entry m') : m = m' := by
  have hwritten : Function.Injective fun e : Text × Setting => (e.1, e.2.toJson) := by
    rintro ⟨key, s⟩ ⟨key', s'⟩ hsame
    cases s <;> cases s' <;> cases hsame <;> rfl
  have hname : m.name = m'.name := h.named.unique h'.named
  have henabled : m.enabled = m'.enabled :=
    Bool.eq_iff_iff.mpr (h.enabled.trans h'.enabled.symm)
  have hcore : m.isCore = m'.isCore := Bool.eq_iff_iff.mpr (h.core.trans h'.core.symm)
  have hsettings : m.settings = m'.settings := by
    by_cases hobject : ∃ members, entry.member? "settings" = some (.object members)
    · obtain ⟨members, hmember⟩ := hobject
      apply hwritten.list_map
      exact (h.settings members hmember).trans (h'.settings members hmember).symm
    · have hother := not_exists.mp hobject
      rw [h.bare hother, h'.bare hother]
  cases m
  cases m'
  simp_all

/-- What stands for a module describes it. -/
theorem Denotes.describes {entry : Json} {m : Module} (h : Denotes entry m) :
    Describes entry m := by
  obtain ⟨hname, hmodule⟩ := h
  have henabled := congrArg Module.enabled hmodule
  have hcore := congrArg Module.isCore hmodule
  have hsettings := congrArg Module.settings hmodule
  simp only [toModule] at henabled hcore hsettings
  refine ⟨name?_eq_some_iff.mp hname, ?_, ?_, ?_, ?_⟩
  · rw [← henabled, isTrue_iff]
  · rw [← hcore, Bool.or_eq_true, isTrue_iff, isTrue_iff]
  · intro members hmember
    rw [← hsettings, hmember, mapValues_settings]
  · intro hother
    rw [← hsettings]
    unfold Json.settings
    split
    · rename_i members hmember
      exact absurd hmember (hother members)
    · rfl

/-- **An entry stands for a module exactly if it describes it.** -/
theorem denotes_iff_describes {entry : Json} {m : Module} :
    Denotes entry m ↔ Describes entry m := by
  refine ⟨Denotes.describes, ?_⟩
  intro h
  have hstands : Denotes entry (toModule entry m.name) := ⟨name?_eq_some_iff.mpr h.named, rfl⟩
  rw [h.unique hstands.describes]
  exact hstands

/-! ## Flaws -/

/-- At most one thing is wrong with an entry. -/
theorem Flaw.unique {taken : Text → Prop} {index : Nat} {entry : Json} {e e' : PayloadError}
    (h : Flaw taken index entry e) (h' : Flaw taken index entry e') : e = e' := by
  cases h with
  | notAnObject other =>
    cases h' with
    | notAnObject => rfl
    | unnamed object => exact absurd object (other _)
    | duplicate named =>
      obtain ⟨members, object⟩ := named.object
      exact absurd object (other members)
  | unnamed object nameless =>
    cases h' with
    | notAnObject other => exact absurd object (other _)
    | unnamed => rfl
    | duplicate named => exact absurd named (nameless _)
  | duplicate named =>
    cases h' with
    | notAnObject other =>
      obtain ⟨members, object⟩ := named.object
      exact absurd object (other members)
    | unnamed object nameless => exact absurd named (nameless _)
    | duplicate named' => rw [named.unique named']

/-- **An entry is refused for what is wrong with it.** -/
theorem entry_eq_error_iff {seen : List Text} {taken : Text → Prop}
    (hseen : ∀ name, name ∈ seen ↔ taken name) {index : Nat} {j : Json} {e : PayloadError} :
    entry seen index j = .error e ↔ Flaw taken index j e := by
  have hrefused : ∀ e', Flaw taken index j e' → entry seen index j = .error e' →
      (entry seen index j = .error e ↔ Flaw taken index j e) := by
    intro e' hflaw hentry
    rw [hentry]
    constructor
    · intro h
      cases h
      exact hflaw
    · intro h
      rw [hflaw.unique h]
  by_cases hobject : ∃ members, j = .object members
  · obtain ⟨members, rfl⟩ := hobject
    cases hname : name? (.object members) with
    | none =>
      refine hrefused (.unnamed index) (.unnamed rfl ?_) (by rw [entry, hname])
      intro name hnamed
      rw [name?_eq_some_iff.mpr hnamed] at hname
      cases hname
    | some name =>
      have hnamed := name?_eq_some_iff.mp hname
      by_cases htaken : name ∈ seen
      · refine hrefused (.duplicate name) (.duplicate hnamed ((hseen name).mp htaken)) ?_
        rw [entry, hname]
        simp [htaken]
      · have hentry :
            entry seen index (.object members) = .ok (toModule (.object members) name) := by
          rw [entry, hname]
          simp [htaken]
        rw [hentry]
        refine iff_of_false (fun h => by cases h) ?_
        intro hflaw
        cases hflaw with
        | notAnObject other => exact other members rfl
        | unnamed _ nameless => exact nameless name hnamed
        | duplicate named again =>
          rw [← hseen, named.unique hnamed] at again
          exact htaken again
  · have hother := not_exists.mp hobject
    refine hrefused (.notAnObject index) (.notAnObject hother) ?_
    cases j with
    | object members => exact absurd rfl (hother members)
    | _ => rfl

theorem entries_cons_eq_error_iff {seen : List Text} {index : Nat} {j : Json} {items : List Json}
    {e : PayloadError} :
    entries seen index (j :: items) = .error e ↔
      entry seen index j = .error e ∨
        ∃ m, entry seen index j = .ok m ∧
          entries (m.name :: seen) (index + 1) items = .error e := by
  rw [entries]
  cases entry seen index j with
  | error e' => simp
  | ok m => cases hrest : entries (m.name :: seen) (index + 1) items <;> simp [hrest]

/-- **Reading stops with the flaw of the first entry that has one.** -/
theorem entries_eq_error_iff {seen : List Text} {done items : List Json} {e : PayloadError}
    (hseen : ∀ name, name ∈ seen ↔ ∃ earlier ∈ done, Named earlier name) :
    entries seen done.length items = .error e ↔
      ∃ i, done.length ≤ i ∧ FlawedAt (done ++ items) i e ∧
        ∀ k, done.length ≤ k → k < i → ∀ e', ¬ FlawedAt (done ++ items) k e' := by
  induction items generalizing seen done with
  | nil =>
    refine iff_of_false (fun h => by cases h) ?_
    rintro ⟨i, hi, ⟨entry, hentry, -⟩, -⟩
    rw [List.append_nil, List.getElem?_eq_none hi] at hentry
    cases hentry
  | cons j items ih =>
    -- what is wrong with `j` is what reading it with the names seen so far says
    have hfirst : ∀ e', FlawedAt (done ++ j :: items) done.length e' ↔
        entry seen done.length j = .error e' := by
      intro e'
      rw [entry_eq_error_iff hseen, FlawedAt]
      simp
    rw [entries_cons_eq_error_iff]
    cases hentry : entry seen done.length j with
    | error first =>
      constructor
      · rintro (h | ⟨m, h, -⟩)
        · cases h
          exact ⟨done.length, Nat.le_refl _, (hfirst _).mpr hentry, fun k hk hlt => by omega⟩
        · cases h
      · rintro ⟨i, hi, hflaw, hbefore⟩
        rcases Nat.eq_or_lt_of_le hi with rfl | hlt
        · rw [(hfirst e).mp hflaw] at hentry
          exact .inl hentry.symm
        · exact absurd ((hfirst first).mpr hentry) (hbefore _ (Nat.le_refl _) hlt first)
    | ok m =>
      have hfine : ∀ e', ¬ FlawedAt (done ++ j :: items) done.length e' := by
        intro e' hflaw
        rw [(hfirst e').mp hflaw] at hentry
        cases hentry
      have hnamed : Named j m.name := (entry_eq_ok_iff.mp hentry).1.describes.named
      have hseen' : ∀ name, name ∈ m.name :: seen ↔
          ∃ earlier ∈ done ++ [j], Named earlier name := by
        intro name
        have hown : name = m.name ↔ Named j name :=
          ⟨fun h => h ▸ hnamed, fun h => h.unique hnamed⟩
        rw [List.mem_cons, hseen, hown]
        simp [or_and_right, exists_or, or_comm]
      have ih := @ih (m.name :: seen) (done ++ [j]) hseen'
      rw [List.length_append, List.append_assoc] at ih
      constructor
      · rintro (h | ⟨m', h, hrest⟩)
        · cases h
        · cases h
          obtain ⟨i, hi, hflaw, hbefore⟩ := ih.mp hrest
          refine ⟨i, Nat.le_of_succ_le hi, hflaw, ?_⟩
          intro k hk hlt e'
          rcases Nat.eq_or_lt_of_le hk with rfl | hk
          · exact hfine e'
          · exact hbefore k hk hlt e'
      · rintro ⟨i, hi, hflaw, hbefore⟩
        rcases Nat.eq_or_lt_of_le hi with rfl | hi
        · exact absurd hflaw (hfine e)
        · refine .inr ⟨m, rfl, ih.mpr ⟨i, hi, hflaw, ?_⟩⟩
          exact fun k hk => hbefore k (Nat.le_of_succ_le hk)

/-! ## Payloads -/

theorem modules_array_eq_error_iff {items : List Json} {e : PayloadError} :
    modules (.array items) = .error e ↔
      ∃ i, FlawedAt items i e ∧ ∀ k < i, ∀ e', ¬ FlawedAt items k e' := by
  have h := @entries_eq_error_iff [] [] items e (by simp)
  simpa [modules] using h

/-- The names of the modules are the names of the entries that they describe. -/
theorem mem_names_iff {items : List Json} {ms : List Module} (h : List.Forall₂ Describes items ms)
    {name : Text} : name ∈ ms.map (·.name) ↔ ∃ entry ∈ items, Named entry name := by
  induction h with
  | nil => simp
  | @cons j m items ms hj _ ih =>
    have hown : name = m.name ↔ Named j name :=
      ⟨fun h => h ▸ hj.named, fun h => h.unique hj.named⟩
    rw [List.map_cons, List.mem_cons, ih, hown, List.exists_mem_cons_iff]

/-- No two modules share a name exactly if no two entries do. -/
theorem nodup_names_iff {items : List Json} {ms : List Module}
    (h : List.Forall₂ Describes items ms) :
    (ms.map (·.name)).Nodup ↔
      items.Pairwise fun a b => ∀ name, Named a name → ¬ Named b name := by
  induction h with
  | nil => simp
  | @cons j m items ms hj hrest ih =>
    rw [List.map_cons, List.nodup_cons, List.pairwise_cons, ih, mem_names_iff hrest]
    refine and_congr_left fun _ => ?_
    constructor
    · intro hnew b hb name hname hsame
      exact hnew ⟨b, hb, hname.unique hj.named ▸ hsame⟩
    · rintro hnew ⟨b, hb, hsame⟩
      exact hnew b hb m.name hj.named hsame

theorem modules_array_eq_ok_iff {items : List Json} {ms : List Module} :
    modules (.array items) = .ok ms ↔
      List.Forall₂ Describes items ms ∧
        items.Pairwise fun a b => ∀ name, Named a name → ¬ Named b name := by
  have hread : modules (.array items) = .ok ms ↔
      List.Forall₂ Denotes items ms ∧ (ms.map (·.name)).Nodup ∧ ∀ m ∈ ms, m.name ∉ [] :=
    entries_eq_ok_iff
  have hsame : Denotes = Describes := funext₂ fun _ _ => propext denotes_iff_describes
  rw [hread, hsame]
  simp only [List.not_mem_nil, not_false_eq_true, implies_true, and_true]
  exact and_congr_right nodup_names_iff

/-- Where every entry has a name, every entry describes a module. -/
theorem exists_describes {items : List Json} (h : ∀ entry ∈ items, ∃ name, Named entry name) :
    ∃ ms, List.Forall₂ Describes items ms := by
  refine ⟨items.map fun entry => toModule entry ((name? entry).getD ""), ?_⟩
  rw [List.forall₂_map_right_iff, List.forall₂_same]
  intro entry hentry
  obtain ⟨name, hnamed⟩ := h entry hentry
  have hname := name?_eq_some_iff.mpr hnamed
  rw [hname]
  exact Denotes.describes ⟨hname, rfl⟩

theorem exists_named {items : List Json} {ms : List Module}
    (h : List.Forall₂ Describes items ms) : ∀ entry ∈ items, ∃ name, Named entry name := by
  induction h with
  | nil => simp
  | cons hj _ ih => exact List.forall_mem_cons.mpr ⟨⟨_, hj.named⟩, ih⟩

/-- **Which payloads are accepted, and what they list.**  A payload is accepted if it is `null`, or
an array in which every entry is an object with a name that is not empty, and no name comes twice.
Then there is a module for each entry, in order, that says what the entry says: its name; its flags,
each on only if it is exactly `true`, where either of two makes it core; and of an object of
settings the texts, numbers and booleans, in order, except under the reserved key.  Any other
payload is refused: because it is no array, or for what is wrong with the first entry with which
anything is wrong: it is no object, or else it has no name, or else its name is that of an entry
before it. -/
theorem modules_spec (raw : Json) :
    ((∃ ms, modules raw = .ok ms) ↔
        raw = .null ∨ ∃ items, raw = .array items ∧ (∀ entry ∈ items, ∃ name, Named entry name) ∧
          items.Pairwise fun a b => ∀ name, Named a name → ¬ Named b name) ∧
      (∀ ms, modules raw = .ok ms ↔
        (raw = .null ∧ ms = []) ∨ ∃ items, raw = .array items ∧ List.Forall₂ Describes items ms ∧
          items.Pairwise fun a b => ∀ name, Named a name → ¬ Named b name) ∧
      (∀ e, modules raw = .error e ↔
        (e = .notAnArray ∧ raw ≠ .null ∧ ∀ items, raw ≠ .array items) ∨
          ∃ items i, raw = .array items ∧ FlawedAt items i e ∧
            ∀ k < i, ∀ e', ¬ FlawedAt items k e') := by
  cases raw with
  | null => simp [modules, eq_comm]
  | array items =>
    refine ⟨?_, ?_, ?_⟩
    · simp only [modules_array_eq_ok_iff, reduceCtorEq, false_or, Json.array.injEq,
        exists_eq_left', exists_and_right]
      exact and_congr_left fun _ => ⟨fun ⟨_, h⟩ => exists_named h, exists_describes⟩
    · intro ms
      simp [modules_array_eq_ok_iff]
    · intro e
      simp [modules_array_eq_error_iff]
  | _ => simp [modules, eq_comm]

/-- The first entry with a flaw decides, even if an entry behind it repeats a name. -/
example :
    modules (.array [.object [("name", .text "a")], .object [("name", .text "")],
      .object [("name", .text "a")]]) = .error (.unnamed 1) := by
  decide +kernel

end Payload

end Honeycomb
