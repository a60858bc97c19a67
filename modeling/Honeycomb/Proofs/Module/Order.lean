import Mathlib.Data.List.Nodup
import Honeycomb.Module.Order

/-!
# The order of modules is an order

* `inOrder_total`, `inOrder_trans` — any two modules are in order one way or the other, and the
  order is transitive.
* `pairwise_inOrder_iff` — modules are in order if the core leads and names ascend on either side.
* `sort_of_inOrder`, `sort_sort` — modules that are in order stay as they are when they are sorted.
* `sort_of_perm` — modules with distinct names have one order, however they are listed.
* `sort_map` — a change that keeps names and core flags can be made before or after sorting.
-/

set_option autoImplicit false

namespace Honeycomb

namespace Text

theorem inOrder_iff {s t : Text} : inOrder s t = true ↔ s.units ≤ t.units := by
  rw [inOrder, Bool.not_eq_true', decide_eq_false_iff_not]
  exact List.not_lt

theorem inOrder_total (s t : Text) : inOrder s t = true ∨ inOrder t s = true := by
  simp only [inOrder_iff]
  exact List.le_total s.units t.units

theorem inOrder_trans {s t u : Text} (hst : inOrder s t = true) (htu : inOrder t u = true) :
    inOrder s u = true := by
  rw [inOrder_iff] at *
  exact List.le_trans hst htu

theorem inOrder_antisymm {s t : Text} (hst : inOrder s t = true) (hts : inOrder t s = true) :
    s = t := by
  rw [inOrder_iff] at *
  exact Text.ext (List.le_antisymm hst hts)

end Text

namespace Module

/-- A core module comes before any other; two modules of one kind come in the order of their
names. -/
theorem inOrder_iff {a b : Module} :
    inOrder a b = true ↔
      (a.isCore = true ∧ b.isCore = false) ∨
        (a.isCore = b.isCore ∧ Text.inOrder a.name b.name = true) := by
  unfold inOrder
  cases a.isCore <;> cases b.isCore <;> simp

theorem inOrder_total (a b : Module) : (inOrder a b || inOrder b a) = true := by
  have hnames := Text.inOrder_total a.name b.name
  rw [Bool.or_eq_true, inOrder_iff, inOrder_iff]
  cases a.isCore <;> cases b.isCore <;> simp [hnames]

theorem inOrder_trans (a b c : Module) (hab : inOrder a b = true) (hbc : inOrder b c = true) :
    inOrder a c = true := by
  rw [inOrder_iff] at *
  rcases hab with ⟨ha, hb⟩ | ⟨ha, hnames⟩
  · rcases hbc with ⟨hb', -⟩ | ⟨hb', -⟩
    · rw [hb] at hb'
      cases hb'
    · exact .inl ⟨ha, hb' ▸ hb⟩
  · rcases hbc with ⟨hb, hc⟩ | ⟨hb, hnames'⟩
    · exact .inl ⟨ha.trans hb, hc⟩
    · exact .inr ⟨ha.trans hb, Text.inOrder_trans hnames hnames'⟩

theorem pairwise_sort (ms : List Module) : (sort ms).Pairwise fun a b => inOrder a b = true :=
  List.pairwise_mergeSort inOrder_trans inOrder_total ms

/-- The core in front and names ascending in each group is what being in order means. -/
theorem pairwise_inOrder_iff {ms : List Module} :
    (ms.Pairwise fun a b => inOrder a b = true) ↔
      (ms.Pairwise fun a b => b.isCore = true → a.isCore = true) ∧
        ms.Pairwise fun a b => a.isCore = b.isCore → a.name.units ≤ b.name.units := by
  rw [← List.pairwise_and_iff]
  refine List.Pairwise.iff fun a b => ?_
  rw [inOrder_iff, Text.inOrder_iff]
  cases a.isCore <;> cases b.isCore <;> simp

theorem sort_of_inOrder {ms : List Module} (h : ms.Pairwise fun a b => inOrder a b = true) :
    sort ms = ms :=
  List.mergeSort_of_pairwise h

/-- **Sorting again changes nothing.** -/
theorem sort_sort (ms : List Module) : sort (sort ms) = sort ms :=
  sort_of_inOrder (pairwise_sort ms)

/-- **Sorting sees names and core flags only.** -/
theorem sort_map {f : Module → Module} (hname : ∀ m, (f m).name = m.name)
    (hcore : ∀ m, (f m).isCore = m.isCore) (ms : List Module) :
    (sort ms).map f = sort (ms.map f) := by
  apply List.map_mergeSort
  intro a _ b _
  simp only [inOrder, hname, hcore]

/-- Two modules that are in order both ways tie: they have the same name and the same flag. -/
theorem inOrder_antisymm {a b : Module} (hab : inOrder a b = true) (hba : inOrder b a = true) :
    a.name = b.name ∧ a.isCore = b.isCore := by
  rw [inOrder_iff] at hab hba
  rcases hab with ⟨ha, hb⟩ | ⟨hcore, hab⟩
  · rcases hba with ⟨hb', -⟩ | ⟨hcore, -⟩
    · rw [hb] at hb'
      cases hb'
    · rw [ha, hb] at hcore
      cases hcore
  · rcases hba with ⟨hb, ha⟩ | ⟨-, hba⟩
    · rw [ha, hb] at hcore
      cases hcore
    · exact ⟨Text.inOrder_antisymm hab hba, hcore⟩

/-- **The order of modules with distinct names does not depend on how they were listed**: whatever
has the same modules in order is the sorted list. -/
theorem sort_of_perm {ms sorted : List Module} (hperm : ms.Perm sorted)
    (hnames : (sorted.map (·.name)).Nodup)
    (h : sorted.Pairwise fun a b => inOrder a b = true) : sort ms = sorted := by
  refine List.Perm.eq_of_pairwise ?_ (pairwise_sort ms) h ((List.mergeSort_perm _ _).trans hperm)
  intro a b ha hb hab hba
  have hmem : a ∈ sorted := hperm.mem_iff.mp ((List.mergeSort_perm _ _).mem_iff.mp ha)
  exact List.inj_on_of_nodup_map hnames hmem hb (inOrder_antisymm hab hba).1

end Module

end Honeycomb
