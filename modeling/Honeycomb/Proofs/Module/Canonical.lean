import Mathlib.Data.List.Forall2
import Mathlib.Data.List.Perm.Basic
import Honeycomb.Layout
import Honeycomb.Module.Source
import Honeycomb.Proofs.Module.Acceptance
import Honeycomb.Proofs.Module.Order
import Honeycomb.Service.Admin

/-!
# The canonical order of modules

* `Arranges` — a list holds the same modules with the core in front, each group by name, and modules
  of one name and flag as they were.
* `eq_of_keyed` — lists in order are the same if their ties are, so that modules can be arranged in
  one way only.
* `modules_perm` — a payload may list its entries in any order: it is accepted or refused alike, and
  lists the same modules.
* `sort_canonical` — sorting arranges, and with distinct names it forgets how the modules were
  listed.
-/

set_option autoImplicit false

namespace Honeycomb

namespace Module

/-! ## Arrangements -/

/-- Whether a module has a flag and a name. -/
def keyed (core : Bool) (name : Text) (m : Module) : Bool := m.isCore == core && m.name == name

theorem keyed_iff {core : Bool} {name : Text} {m : Module} :
    keyed core name m = true ↔ m.isCore = core ∧ m.name = name := by
  rw [keyed, Bool.and_eq_true, beq_iff_eq, beq_iff_eq]

/-- Modules of one flag and one name tie. -/
theorem inOrder_of_keyed {core : Bool} {name : Text} {a b : Module}
    (ha : keyed core name a = true) (hb : keyed core name b = true) : inOrder a b = true := by
  obtain ⟨hacore, haname⟩ := keyed_iff.mp ha
  obtain ⟨hbcore, hbname⟩ := keyed_iff.mp hb
  rw [inOrder_iff, Text.inOrder_iff, hacore, hbcore, haname, hbname]
  exact .inr ⟨rfl, List.le_refl _⟩

/-- Modules are arranged in a list: none is lost or added, core modules stand before all others,
names ascend by their units among the modules of one flag, and modules with one flag and one name
stand as they stood. -/
structure Arranges (ms sorted : List Module) : Prop where
  perm : sorted.Perm ms
  coreFirst : sorted.Pairwise fun a b => b.isCore = true → a.isCore = true
  ascending : sorted.Pairwise fun a b => a.isCore = b.isCore → a.name.units ≤ b.name.units
  stable : ∀ core name, sorted.filter (keyed core name) = ms.filter (keyed core name)

/-- **Ties keep their order** when modules are sorted. -/
theorem filter_keyed_sort (core : Bool) (name : Text) (ms : List Module) :
    (sort ms).filter (keyed core name) = ms.filter (keyed core name) := by
  have hties : (ms.filter (keyed core name)).Pairwise fun a b => inOrder a b = true := by
    refine List.pairwise_of_forall_mem_list fun a ha b hb => ?_
    exact inOrder_of_keyed (List.of_mem_filter ha) (List.of_mem_filter hb)
  have hsub : (ms.filter (keyed core name)).Sublist (sort ms) :=
    List.sublist_mergeSort inOrder_trans inOrder_total hties List.filter_sublist
  have hfiltered := hsub.filter (keyed core name)
  rw [List.filter_filter] at hfiltered
  simp only [Bool.and_self] at hfiltered
  have hlength := ((List.mergeSort_perm ms inOrder).filter (keyed core name)).length_eq
  exact (hfiltered.eq_of_length hlength.symm).symm

theorem arranges_sort (ms : List Module) : Arranges ms (sort ms) where
  perm := List.mergeSort_perm ms inOrder
  coreFirst := (pairwise_inOrder_iff.mp (pairwise_sort ms)).1
  ascending := (pairwise_inOrder_iff.mp (pairwise_sort ms)).2
  stable core name := filter_keyed_sort core name ms

/-- **Lists in order are the same if their ties are.** -/
theorem eq_of_keyed {l l' : List Module} (h : l.Pairwise fun a b => inOrder a b = true)
    (h' : l'.Pairwise fun a b => inOrder a b = true)
    (hties : ∀ core name, l.filter (keyed core name) = l'.filter (keyed core name)) : l = l' := by
  -- lists with the same ties have the same members
  have hmem : ∀ {m : Module} {k k' : List Module},
      (∀ core name, k.filter (keyed core name) = k'.filter (keyed core name)) →
      m ∈ k → m ∈ k' := by
    intro m k k' heq hm
    have hown : keyed m.isCore m.name m = true := keyed_iff.mpr ⟨rfl, rfl⟩
    have := List.mem_filter.mpr ⟨hm, hown⟩
    rw [heq] at this
    exact List.mem_of_mem_filter this
  induction l generalizing l' with
  | nil =>
    refine (List.eq_nil_iff_forall_not_mem.mpr fun m hm => ?_).symm
    exact List.not_mem_nil (hmem (fun core name => (hties core name).symm) hm)
  | cons a l ih =>
    cases l' with
    | nil => exact absurd (hmem hties List.mem_cons_self) List.not_mem_nil
    | cons b l' =>
      rw [List.pairwise_cons] at h h'
      have hab : inOrder a b = true := by
        rcases List.mem_cons.mp (hmem (fun core name => (hties core name).symm)
          List.mem_cons_self) with rfl | hb
        · exact (Bool.or_self _).symm.trans (inOrder_total _ _)
        · exact h.1 b hb
      have hba : inOrder b a = true := by
        rcases List.mem_cons.mp (hmem hties List.mem_cons_self) with rfl | ha
        · exact hab
        · exact h'.1 a ha
      -- so the two heads tie, and lead the ties of their key
      obtain ⟨hname, hcore⟩ := inOrder_antisymm hab hba
      have hheads := hties a.isCore a.name
      rw [List.filter_cons_of_pos (keyed_iff.mpr ⟨rfl, rfl⟩),
        List.filter_cons_of_pos (keyed_iff.mpr ⟨hcore.symm, hname.symm⟩)] at hheads
      obtain rfl := (List.cons.inj hheads).1
      refine congrArg (a :: ·) (ih h.2 h'.2 fun core name => ?_)
      have htails := hties core name
      by_cases ha : keyed core name a = true
      · rw [List.filter_cons_of_pos ha, List.filter_cons_of_pos ha] at htails
        exact (List.cons.inj htails).2
      · rwa [List.filter_cons_of_neg ha, List.filter_cons_of_neg ha] at htails

theorem arranges_iff {ms sorted : List Module} : Arranges ms sorted ↔ sorted = sort ms := by
  constructor
  · intro h
    refine eq_of_keyed (pairwise_inOrder_iff.mpr ⟨h.coreFirst, h.ascending⟩) (pairwise_sort ms) ?_
    intro core name
    rw [h.stable, filter_keyed_sort]
  · rintro rfl
    exact arranges_sort ms

/-- Modules with distinct names are sorted alike, however they are listed. -/
theorem sort_eq_of_perm {ms ms' : List Module} (hnames : (ms.map (·.name)).Nodup)
    (h : ms'.Perm ms) : sort ms' = sort ms := by
  have hsorted : (sort ms).Perm ms := List.mergeSort_perm ms inOrder
  exact sort_of_perm (h.trans hsorted.symm) ((hsorted.map _).nodup_iff.mpr hnames)
    (pairwise_sort ms)

end Module

/-! ## Payloads -/

namespace Payload

/-- The entries of an accepted payload can be listed in any order. -/
theorem modules_perm {items items' : List Json} (h : items'.Perm items) {ms : List Module}
    (hms : modules (.array items) = .ok ms) :
    ∃ ms', modules (.array items') = .ok ms' ∧ ms'.Perm ms := by
  obtain ⟨hdescribes, hnames⟩ := modules_array_eq_ok_iff.mp hms
  obtain ⟨ms', hdescribes', hperm⟩ := List.perm_comp_forall₂ h hdescribes
  refine ⟨ms', modules_array_eq_ok_iff.mpr ⟨hdescribes', ?_⟩, hperm⟩
  refine (h.pairwise_iff ?_).mpr hnames
  intro a b hab name hb ha
  exact hab name ha hb

/-- **A payload lists the same modules in order, however its entries are listed**: it is accepted
or refused alike. -/
theorem toOption_sort_perm {items items' : List Json} (h : items'.Perm items) :
    ((modules (.array items')).map Module.sort).toOption =
      ((modules (.array items)).map Module.sort).toOption := by
  cases hms : modules (.array items) with
  | ok ms =>
    obtain ⟨ms', hms', hperm⟩ := modules_perm h hms
    rw [hms']
    exact congrArg some (Module.sort_eq_of_perm (nodup_names_of_modules hms) hperm)
  | error e =>
    cases hms' : modules (.array items') with
    | ok ms' =>
      obtain ⟨ms, hms'', -⟩ := modules_perm h.symm hms'
      rw [hms] at hms''
      cases hms''
    | error e' => rfl

end Payload

/-- What a file lists is the payload in it, in order. -/
theorem Source.toOption_parse {text : Text} {raw : Json} (h : Json.parse? text = some raw)
    (complaint : Text → Text) (source : Text) :
    (parse complaint text source).toOption =
      ((Payload.modules raw).map Module.sort).toOption := by
  rw [parse, h]
  dsimp only
  cases Payload.modules raw <;> rfl

/-- What an answer lists is the payload in it, in order. -/
theorem Reply.toOption_modules {body : Text} {raw : Json} (h : Json.parse? body = some raw)
    (status : Float) (complaint : Text) :
    (modules (.answered status body complaint)).toOption =
      if isSuccess status then ((Payload.modules raw).map Module.sort).toOption else none := by
  rw [modules]
  split
  · rw [h]
    dsimp only
    cases Payload.modules raw <;> rfl
  · rfl

namespace Module

/-- **Modules have one canonical order.**  What sorting gives is the one list in which the modules
are arranged: none is lost or added, core modules stand before all others, names ascend by their
units in each group, and ties stand as they stood.  Sorting again changes nothing.  Where names are
distinct the order in which modules are listed does not matter, neither for the list nor for any
layout of it.  So it does not matter either in which order a file or a server lists them, in a
payload that is accepted or refused alike. -/
theorem sort_canonical {α : Type} [Scalar α] [DecidableLE α] (ms : List Module) :
    (∀ sorted, Arranges ms sorted ↔ sorted = sort ms) ∧
      sort (sort ms) = sort ms ∧
      ((ms.map (·.name)).Nodup → ∀ ms', ms'.Perm ms →
        sort ms' = sort ms ∧
          ∀ (surface : Viewport α) (padding : α),
            Layout.ofModules (sort ms') surface padding =
              Layout.ofModules (sort ms) surface padding) ∧
      ∀ (text text' : Text) (items items' : List Json), items'.Perm items →
        Json.parse? text = some (.array items) → Json.parse? text' = some (.array items') →
        (∀ complaint source, (Source.parse complaint text' source).toOption =
            (Source.parse complaint text source).toOption) ∧
          ∀ status complaint, (Reply.modules (.answered status text' complaint)).toOption =
            (Reply.modules (.answered status text complaint)).toOption := by
  refine ⟨fun sorted => arranges_iff, sort_sort ms, ?_, ?_⟩
  · intro hnames ms' hperm
    have hsort := sort_eq_of_perm hnames hperm
    exact ⟨hsort, fun surface padding => by rw [hsort]⟩
  · intro text text' items items' hperm htext htext'
    have hlisted := Payload.toOption_sort_perm hperm
    refine ⟨fun complaint source => ?_, fun status complaint => ?_⟩
    · rw [Source.toOption_parse htext, Source.toOption_parse htext', hlisted]
    · rw [Reply.toOption_modules htext, Reply.toOption_modules htext', hlisted]

/-- Three modules in order. -/
def arranged : List Module :=
  [⟨"z", true, true, []⟩, ⟨"a", false, false, []⟩, ⟨"b", true, false, []⟩]

/-- The same modules as a file may list them. -/
def shuffled : List Module :=
  [⟨"b", true, false, []⟩, ⟨"z", true, true, []⟩, ⟨"a", false, false, []⟩]

/-- Nothing is left of the order in which they were listed, be it in a list or in the text of a
file. -/
theorem sort_shuffled :
    (arranged.map (·.name)).Nodup ∧ shuffled.Perm arranged ∧ sort shuffled = arranged ∧
      ∀ complaint, (Source.parse complaint (listToJson shuffled).render "modules").toOption =
        (Source.parse complaint (listToJson arranged).render "modules").toOption := by
  have hnames : (arranged.map (·.name)).Nodup := by decide
  have hperm : shuffled.Perm arranged := by decide
  obtain ⟨-, -, hlists, htexts⟩ := sort_canonical (α := Float) arranged
  have hread : ∀ ms : List Module, (∀ m ∈ ms, m.settings = []) →
      Json.parse? (listToJson ms).render = some (listToJson ms) := by
    intro ms hbare
    refine Json.parse?_render (faithful_listToJson fun m hm => ?_)
    rw [hbare m hm]
    exact ⟨.nil, fun _ _ h => by cases h⟩
  have hfiles := htexts _ _ _ _ (hperm.map toJson) (hread arranged (by simp [arranged]))
    (hread shuffled (by simp [shuffled]))
  exact ⟨hnames, hperm, (hlists hnames shuffled hperm).1.trans (sort_of_inOrder (by decide)),
    fun complaint => hfiles.1 complaint "modules"⟩

end Module

end Honeycomb
