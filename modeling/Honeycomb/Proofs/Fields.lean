import Mathlib.Data.List.Nodup
import Mathlib.Data.List.Perm.Basic
import Honeycomb.Fields

/-!
# Maps with one entry for a key

* `Fields.Distinct` — no key has two entries; setting a key keeps it so.
* `ofPairs_perm` — pairs of distinct keys, set one after the other, are all there.
* `get?_eq_some_iff` — with distinct keys, looking a key up finds its entry.
* `ofPairs_of_canonical` — entries that are in order stay as they are when they are set again.
* `canonical_ofPairs` — whatever is set, in whatever order, the entries end up in order.
* `get?_set`, `get?_merge` — a key has the value that it was given last.
-/

set_option autoImplicit false

namespace Honeycomb.Fields

variable {β γ : Type}

/-- No key has two entries. -/
def Distinct (fs : Fields β) : Prop := fs.keys.Nodup

instance (fs : Fields β) : Decidable (Distinct fs) := inferInstanceAs (Decidable (List.Nodup _))

theorem distinct_nil : Distinct ([] : Fields β) := List.nodup_nil

theorem Distinct.perm {fs gs : Fields β} (h : fs.Perm gs) (hfs : Distinct fs) : Distinct gs :=
  (h.map Prod.fst).nodup_iff.mp hfs

theorem has_eq_false_iff {fs : Fields β} {key : Text} : fs.has key = false ↔ key ∉ fs.keys := by
  simp only [has, keys, List.any_eq_false, beq_iff_eq, List.mem_map, not_exists, not_and]

theorem keys_replace (fs : Fields β) (key : Text) (value : β) :
    (fs.replace key value).keys = fs.keys := by
  unfold replace keys
  rw [List.map_map]
  refine List.map_congr_left fun e _ => ?_
  simp only [Function.comp_apply]
  split
  · rename_i h
    exact (by simpa using h : e.1 = key).symm
  · rfl

theorem insertIndex_perm (i : Nat) (key : Text) (value : β) (fs : Fields β) :
    (insertIndex i key value fs).Perm ((key, value) :: fs) := by
  induction fs with
  | nil => exact .refl _
  | cons e rest ih =>
    unfold insertIndex
    split
    · split
      · exact (ih.cons e).trans (.swap _ _ _)
      · exact .refl _
    · exact .refl _

/-- A new key gets one new entry. -/
theorem set_perm {fs : Fields β} {key : Text} {value : β} (h : key ∉ fs.keys) :
    (fs.set key value).Perm ((key, value) :: fs) := by
  unfold set
  rw [if_neg (by rw [has_eq_false_iff.mpr h]; nofun)]
  split
  · exact insertIndex_perm _ key value fs
  · exact List.perm_append_singleton _ _

theorem Distinct.set {fs : Fields β} (h : Distinct fs) (key : Text) (value : β) :
    Distinct (fs.set key value) := by
  by_cases hk : key ∈ fs.keys
  · have hhas : fs.has key = true := by
      by_contra hn
      exact has_eq_false_iff.mp (by simpa using hn) hk
    unfold Fields.set
    rw [if_pos hhas, Distinct, keys_replace]
    exact h
  · refine Distinct.perm (set_perm hk).symm ?_
    show (key :: fs.keys).Nodup
    exact List.nodup_cons.mpr ⟨hk, h⟩

theorem distinct_merge {fs : Fields β} (h : Distinct fs) (extra : Fields β) :
    Distinct (fs.merge extra) := by
  unfold merge
  induction extra generalizing fs with
  | nil => exact h
  | cons e rest ih => exact ih (h.set e.1 e.2)

theorem distinct_ofPairs (pairs : List (Text × β)) : Distinct (ofPairs pairs) :=
  distinct_merge distinct_nil pairs

theorem merge_perm {fs extra : Fields β} (h : Distinct (fs ++ extra)) :
    (fs.merge extra).Perm (fs ++ extra) := by
  unfold merge
  induction extra generalizing fs with
  | nil => rw [List.append_nil]; exact .refl _
  | cons e rest ih =>
    have hmiddle : (fs ++ e :: rest).Perm (e :: fs ++ rest) := List.perm_middle
    have hnew : e.1 ∉ fs.keys := by
      have hcons := h.perm hmiddle
      intro hk
      refine (List.nodup_cons.mp hcons).1 ?_
      show e.1 ∈ (fs ++ rest).map Prod.fst
      rw [List.map_append]
      exact List.mem_append_left _ hk
    have hset : (fs.set e.1 e.2 ++ rest).Perm (fs ++ e :: rest) :=
      ((set_perm hnew).append_right rest).trans hmiddle.symm
    exact (ih (h.perm hset.symm)).trans hset

/-- What is there after a key is set was there before or is the new entry. -/
theorem mem_set {fs : Fields β} {key : Text} {value : β} {e : Text × β}
    (h : e ∈ fs.set key value) : e = (key, value) ∨ e ∈ fs := by
  by_cases hk : fs.has key = true
  · unfold set replace at h
    rw [if_pos hk] at h
    obtain ⟨old, hold, rfl⟩ := List.mem_map.mp h
    split
    · exact .inl rfl
    · exact .inr hold
  · have hnew := has_eq_false_iff.mp (by simpa using hk)
    exact List.mem_cons.mp ((set_perm hnew).subset h)

theorem mem_ofPairs {pairs : List (Text × β)} {e : Text × β} (h : e ∈ ofPairs pairs) :
    e ∈ pairs := by
  suffices ∀ fs : Fields β, e ∈ fs.merge pairs → e ∈ fs ∨ e ∈ pairs by
    rcases this [] h with h | h
    · cases h
    · exact h
  clear h
  unfold merge
  induction pairs with
  | nil => exact fun fs h => .inl h
  | cons p rest ih =>
    intro fs h
    rcases ih _ h with h | h
    · rcases mem_set h with rfl | h
      · exact .inr List.mem_cons_self
      · exact .inl h
    · exact .inr (List.mem_cons_of_mem p h)

/-- **Pairs of distinct keys are all there once they are set.** -/
theorem ofPairs_perm {pairs : List (Text × β)} (h : Distinct pairs) : (ofPairs pairs).Perm pairs :=
  merge_perm h

/-- With distinct keys, looking a key up finds its entry. -/
theorem get?_eq_some_iff {fs : Fields β} (h : Distinct fs) {key : Text} {value : β} :
    fs.get? key = some value ↔ (key, value) ∈ fs := by
  unfold get?
  constructor
  · intro hf
    obtain ⟨e, he, hv⟩ := Option.map_eq_some_iff.mp hf
    have hkey : e.1 = key := by simpa using List.find?_some he
    rw [← hkey, ← hv]
    exact List.mem_of_find?_eq_some he
  · intro hm
    cases hfind : fs.find? (·.1 == key) with
    | none =>
      have := List.find?_eq_none.mp hfind (key, value) hm
      simp at this
    | some e =>
      have hkey : e.1 = key := by simpa using List.find?_some hfind
      have heq := List.inj_on_of_nodup_map h (List.mem_of_find?_eq_some hfind) hm hkey
      rw [heq]
      rfl

theorem keys_mapValues (f : β → γ) (fs : Fields β) : (fs.mapValues f).keys = fs.keys := by
  simp [mapValues, keys]

theorem key_ne_of_mem {fs : Fields β} {key : Text} (hnew : key ∉ fs.keys) {a : Text × β}
    (ha : a ∈ fs) : a.1 ≠ key := by
  rintro rfl
  exact hnew (List.mem_map_of_mem ha)

theorem withoutReserved_eq_self {fs : Fields β} (h : reservedKey ∉ fs.keys) :
    withoutReserved fs = fs := by
  unfold withoutReserved
  refine List.filter_eq_self.mpr fun e he => ?_
  simpa using key_ne_of_mem h he

/-! ## Order -/

instance decidablePrecedes (a b : Text × β) : Decidable (Precedes a b) :=
  match ha : index? a.1, hb : index? b.1 with
  | some i, some j => decidable_of_iff (a.1 ≠ b.1 ∧ i < j) (by rw [Precedes, ha, hb])
  | some _, none => decidable_of_iff (a.1 ≠ b.1 ∧ True) (by rw [Precedes, ha, hb])
  | none, some _ => decidable_of_iff (a.1 ≠ b.1 ∧ False) (by rw [Precedes, ha, hb])
  | none, none => decidable_of_iff (a.1 ≠ b.1 ∧ True) (by rw [Precedes, ha, hb])

instance decidableCanonical (fs : Fields β) : Decidable (Canonical fs) :=
  inferInstanceAs (Decidable (List.Pairwise Precedes fs))

theorem insertIndex_eq_append {i : Nat} {key : Text} {value : β} {fs : Fields β}
    (h : ∀ e ∈ fs, ∃ j, index? e.1 = some j ∧ j < i) :
    insertIndex i key value fs = fs ++ [(key, value)] := by
  induction fs with
  | nil => rfl
  | cons e rest ih =>
    obtain ⟨j, hj, hlt⟩ := h e List.mem_cons_self
    rw [insertIndex, hj]
    dsimp only
    rw [if_pos hlt, ih fun a ha => h a (List.mem_cons_of_mem e ha)]
    rfl

/-- An entry that all others may precede is set behind them. -/
theorem set_of_precedes {fs : Fields β} {e : Text × β} (h : ∀ a ∈ fs, Precedes a e) :
    fs.set e.1 e.2 = fs ++ [e] := by
  have hnew : e.1 ∉ fs.keys := by
    intro hk
    obtain ⟨a, ha, hkey⟩ := List.mem_map.mp hk
    exact (h a ha).1 hkey
  unfold set
  rw [if_neg (by rw [has_eq_false_iff.mpr hnew]; exact Bool.false_ne_true)]
  cases hi : index? e.1 with
  | none => rfl
  | some i =>
    refine insertIndex_eq_append fun a ha => ?_
    have hprecedes := (h a ha).2
    rw [hi] at hprecedes
    cases hj : index? a.1 with
    | none =>
      rw [hj] at hprecedes
      exact hprecedes.elim
    | some j =>
      rw [hj] at hprecedes
      exact ⟨j, rfl, hprecedes⟩

theorem merge_of_canonical {fs extra : Fields β} (h : Canonical (fs ++ extra)) :
    fs.merge extra = fs ++ extra := by
  unfold merge
  induction extra generalizing fs with
  | nil => rw [List.append_nil, List.foldl_nil]
  | cons e rest ih =>
    have hlast : ∀ a ∈ fs, Precedes a e :=
      fun a ha => (List.pairwise_append.mp h).2.2 a ha e List.mem_cons_self
    rw [List.append_cons] at h ⊢
    rw [List.foldl_cons, set_of_precedes hlast]
    exact ih h

/-- **Entries that are in order stay as they are** when they are set one after the other. -/
theorem ofPairs_of_canonical {fs : Fields β} (h : Canonical fs) : ofPairs fs = fs :=
  merge_of_canonical h

/-! ## Setting keeps entries in order -/

/-- A key spells at most one index, and an index is spelled by one key. -/
theorem index?_inj {key key' : Text} {i : Nat} (h : index? key = some i)
    (h' : index? key' = some i) : key = key' := by
  have hspelled : ∀ {k : Text}, index? k = some i → Digits.ofNat i = k.units := by
    intro k hk
    simp only [index?, Bool.and_eq_true, beq_iff_eq] at hk
    split at hk
    · rename_i hspells
      rw [← Option.some.inj hk]
      exact hspells.2
    · cases hk
  exact Text.ext ((hspelled h).symm.trans (hspelled h'))

theorem precedes_congr {a b : Text × β} {a' b' : Text × γ} (ha : a.1 = a'.1) (hb : b.1 = b'.1) :
    Precedes a b ↔ Precedes a' b' := by
  rw [Precedes, Precedes, ha, hb]

/-- Whether entries are in order depends on their keys. -/
theorem canonical_iff_keys {fs : Fields β} :
    Canonical fs ↔ fs.keys.Pairwise fun key key' => Precedes (key, ()) (key', ()) := by
  rw [Canonical, keys, List.pairwise_map]
  exact List.Pairwise.iff fun a b => precedes_congr rfl rfl

/-- Entries are in order if their keys come in the order of others that are. -/
theorem Canonical.of_keys {fs : Fields β} {gs : Fields γ} (h : Canonical gs)
    (hsub : fs.keys.Sublist gs.keys) : Canonical fs := by
  rw [canonical_iff_keys] at *
  exact List.Pairwise.sublist hsub h

theorem Canonical.distinct {fs : Fields β} (h : Canonical fs) : Distinct fs := by
  rw [Distinct, keys, List.Nodup, List.pairwise_map]
  exact h.imp fun hab => hab.1

/-- An index that stands before the first entry stands before all of them. -/
theorem precedes_of_head {i : Nat} {key : Text} {value : β} {e : Text × β} {rest : Fields β}
    (h : Canonical (e :: rest)) (hi : index? key = some i)
    (hnew : key ∉ keys (e :: rest)) (hhead : ∀ j, index? e.1 = some j → i < j) :
    ∀ a ∈ e :: rest, Precedes (key, value) a := by
  intro a ha
  refine ⟨(key_ne_of_mem hnew ha).symm, ?_⟩
  dsimp only
  rw [hi]
  rcases List.mem_cons.mp ha with rfl | ha
  · cases hj : index? a.1 with
    | none => trivial
    | some j => exact hhead j hj
  · have hea := ((List.pairwise_cons.mp h).1 a ha).2
    cases hk : index? a.1 with
    | none => trivial
    | some k =>
      cases hj : index? e.1 with
      | none =>
        rw [hk, hj] at hea
        exact hea.elim
      | some j =>
        rw [hk, hj] at hea
        exact Nat.lt_trans (hhead j hj) hea

theorem canonical_insertIndex {i : Nat} {key : Text} (value : β) {fs : Fields β}
    (h : Canonical fs) (hi : index? key = some i) (hnew : key ∉ fs.keys) :
    Canonical (insertIndex i key value fs) := by
  induction fs with
  | nil => exact List.pairwise_singleton _ _
  | cons e rest ih =>
    have hhere (hhead : ∀ j, index? e.1 = some j → i < j) :
        Canonical ((key, value) :: e :: rest) :=
      List.pairwise_cons.mpr ⟨precedes_of_head h hi hnew hhead, h⟩
    obtain ⟨hfirst, hrest⟩ := List.pairwise_cons.mp h
    have hother : e.1 ≠ key := key_ne_of_mem hnew List.mem_cons_self
    rw [insertIndex]
    cases hj : index? e.1 with
    | none => exact hhere (by simp [hj])
    | some j =>
      dsimp only
      split
      · rename_i hlt
        refine List.pairwise_cons.mpr ⟨?_, ih hrest fun hk => hnew (List.mem_cons_of_mem _ hk)⟩
        intro a ha
        rcases List.mem_cons.mp ((insertIndex_perm i key value rest).subset ha) with rfl | ha
        · refine ⟨hother, ?_⟩
          rw [hj, hi]
          exact hlt
        · exact hfirst a ha
      · rename_i hge
        refine hhere ?_
        intro k hk
        have hne : i ≠ j := by
          rintro rfl
          exact hother (index?_inj hj hi)
        obtain rfl := Option.some.inj (hj.symm.trans hk)
        omega

/-- **Setting a key keeps the entries in order.** -/
theorem Canonical.set {fs : Fields β} (h : Canonical fs) (key : Text) (value : β) :
    Canonical (fs.set key value) := by
  unfold Fields.set
  split
  · -- the key keeps its place
    refine h.of_keys ?_
    rw [keys_replace]
  · rename_i hhas
    have hnew : key ∉ fs.keys := has_eq_false_iff.mp (Bool.not_eq_true _ ▸ hhas)
    split
    · rename_i i hi
      exact canonical_insertIndex value h hi hnew
    · rename_i hnone
      refine List.pairwise_append.mpr ⟨h, List.pairwise_singleton _ _, ?_⟩
      intro a ha b hb
      obtain rfl := List.mem_singleton.mp hb
      refine ⟨key_ne_of_mem hnew ha, ?_⟩
      rw [hnone]
      cases index? a.1 <;> trivial

/-- **Whatever is set, the entries end up in order.** -/
theorem canonical_ofPairs (pairs : List (Text × β)) : Canonical (ofPairs pairs) := by
  have hmerge : ∀ fs : Fields β, Canonical fs → Canonical (fs.merge pairs) := by
    unfold merge
    induction pairs with
    | nil =>
      intro fs h
      exact h
    | cons e rest ih =>
      intro fs h
      exact ih _ (h.set e.1 e.2)
  exact hmerge [] List.Pairwise.nil

/-! ## Looking keys up -/

theorem get?_cons (e : Text × β) (fs : Fields β) (key : Text) :
    get? (e :: fs) key = if e.1 = key then some e.2 else fs.get? key := by
  unfold get?
  rw [List.find?_cons]
  by_cases h : e.1 = key
  · rw [if_pos h, h, beq_self_eq_true]
    rfl
  · rw [if_neg h, beq_eq_false_iff_ne.mpr h]

theorem get?_append (fs gs : Fields β) (key : Text) :
    get? (fs ++ gs) key = (fs.get? key).or (gs.get? key) := by
  unfold get?
  rw [List.find?_append]
  cases fs.find? (·.1 == key) <;> rfl

theorem get?_isSome (fs : Fields β) (key : Text) : (fs.get? key).isSome = fs.has key := by
  rw [get?, Option.isSome_map, has, Bool.eq_iff_iff, List.find?_isSome, List.any_eq_true]

theorem get?_replace (fs : Fields β) (key : Text) (value : β) (other : Text) :
    (fs.replace key value).get? other =
      if other = key then (fs.get? key).map fun _ => value else fs.get? other := by
  induction fs with
  | nil => simp [replace, get?]
  | cons e fs ih =>
    have hreplace : replace (e :: fs) key value =
        (if e.1 == key then (key, value) else e) :: replace fs key value := rfl
    rw [hreplace, get?_cons, get?_cons, get?_cons, ih]
    by_cases he : e.1 = key
    · subst he
      by_cases ho : e.1 = other
      · simp [ho]
      · simp [ho, Ne.symm ho]
    · by_cases ho : e.1 = other
      · subst ho
        simp [he]
      · simp [ho, he]

/-- A new key gets its entry somewhere among the others. -/
theorem exists_set_eq {fs : Fields β} {key : Text} (hnew : key ∉ fs.keys) (value : β) :
    ∃ before after, fs = before ++ after ∧ fs.set key value = before ++ (key, value) :: after := by
  have hinsert : ∀ i, ∃ before after, fs = before ++ after ∧
      insertIndex i key value fs = before ++ (key, value) :: after := by
    intro i
    clear hnew
    induction fs with
    | nil => exact ⟨[], [], rfl, rfl⟩
    | cons e fs ih =>
      obtain ⟨before, after, hfs, hset⟩ := ih
      unfold insertIndex
      split
      · split
        · exact ⟨e :: before, after, congrArg _ hfs, congrArg _ hset⟩
        · exact ⟨[], e :: fs, rfl, rfl⟩
      · exact ⟨[], e :: fs, rfl, rfl⟩
  unfold set
  rw [if_neg (by rw [has_eq_false_iff.mpr hnew]; exact Bool.false_ne_true)]
  split
  · exact hinsert _
  · exact ⟨fs, [], (List.append_nil fs).symm, rfl⟩

/-- **A key that is set has the new value, and every other key the value that it had.** -/
theorem get?_set (fs : Fields β) (key : Text) (value : β) (other : Text) :
    (fs.set key value).get? other = if key = other then some value else fs.get? other := by
  by_cases hhas : fs.has key = true
  · obtain ⟨old, hold⟩ := Option.isSome_iff_exists.mp ((get?_isSome fs key).trans hhas)
    rw [set, if_pos hhas, get?_replace, hold]
    by_cases h : key = other
    · rw [if_pos h.symm, if_pos h]
      rfl
    · rw [if_neg (Ne.symm h), if_neg h]
  · have hnone : fs.get? key = none := by
      rwa [← get?_isSome, Option.not_isSome_iff_eq_none] at hhas
    obtain ⟨before, after, hfs, hset⟩ := exists_set_eq
      (has_eq_false_iff.mp (Bool.not_eq_true _ ▸ hhas)) value
    rw [hset, get?_append, get?_cons]
    by_cases h : key = other
    · subst h
      rw [hfs, get?_append, Option.or_eq_none_iff] at hnone
      rw [hnone.1, if_pos rfl, if_pos rfl]
      rfl
    · rw [if_neg h, if_neg h, ← get?_append, ← hfs]

/-- The value that the last entry of a key gives it. -/
def last? (fs : Fields β) (key : Text) : Option β := get? fs.reverse key

/-- **Entries that are set one after the other leave a key with the value of its last one**, or
with the value that it had. -/
theorem get?_merge (fs extra : Fields β) (key : Text) :
    (fs.merge extra).get? key = (extra.last? key).or (fs.get? key) := by
  unfold merge last?
  induction extra generalizing fs with
  | nil => rfl
  | cons e extra ih =>
    rw [List.foldl_cons, ih, get?_set, List.reverse_cons, get?_append, get?_cons, Option.or_assoc]
    by_cases h : e.1 = key
    · rw [if_pos h, if_pos h]
      rfl
    · rw [if_neg h, if_neg h]
      rfl

end Honeycomb.Fields
