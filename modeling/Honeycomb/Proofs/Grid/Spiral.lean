import Mathlib
import Honeycomb.Grid.Spiral
import Honeycomb.Proofs.Decimal.Reading
import Honeycomb.Proofs.Grid.Ring

/-!
# The spiral lists the grid in order

Places are ranked by their distance from the origin, then from right to left, then by how far they
lie from the middle row, and last by the row itself.

* `rank` — the rank of a place; the ranks of all places are in a linear order.
* `IsInitial` — a list goes up in rank and leaves out nothing below what it holds;
  `IsInitial.eq_of_length_eq` says that there is one such list of each length at most.
* `pairwise_mergeSort_of_ties` — a stable sort keeps tied elements in their order, so that the walk
  around a ring decides between the two places that the sort does not tell apart.
* `fill_spec` — what is filled in outside a ring is initial among the places outside of it.
* `positions_spec` — the first `n` positions are the initial list of length `n`.
-/

set_option autoImplicit false

namespace Honeycomb.Spiral

open Axial (ring mem_ring_iff ring_pairwise length_ring)

/-! ## Ranks -/

/-- The rank of a place: by distance, then from right to left, then by the distance from the middle
row, then by the row from the greatest `r` down. -/
def rank (a : Axial Int) : Nat ×ₗ Int ×ₗ Nat ×ₗ Int :=
  toLex (a.distance, toLex (-a.q, toLex (a.r.natAbs, -a.r)))

theorem rank_lt_iff {a b : Axial Int} :
    rank a < rank b ↔ a.distance < b.distance ∨ a.distance = b.distance ∧
      (b.q < a.q ∨ a.q = b.q ∧
        (a.r.natAbs < b.r.natAbs ∨ a.r.natAbs = b.r.natAbs ∧ b.r < a.r)) := by
  simp only [rank, Prod.Lex.toLex_lt_toLex, neg_lt_neg_iff, neg_inj]

theorem rank_injective : Function.Injective rank := by
  intro a b h
  obtain ⟨q, r⟩ := a
  obtain ⟨q', r'⟩ := b
  simp only [rank, EmbeddingLike.apply_eq_iff_eq, Prod.mk.injEq, neg_inj] at h
  rw [h.2.1, h.2.2.2]

theorem rank_lt_of_distance_lt {a b : Axial Int} (h : a.distance < b.distance) :
    rank a < rank b := rank_lt_iff.mpr (.inl h)

theorem distance_le_of_rank_lt {a b : Axial Int} (h : rank a < rank b) :
    a.distance ≤ b.distance := by
  rcases rank_lt_iff.mp h with h | h
  · exact Nat.le_of_lt h
  · exact Nat.le_of_eq h.1

/-- The first places of an ascending list hold all of the list that ranks below one of them. -/
theorem mem_take_of_rank_lt {l : List (Axial Int)} (h : l.Pairwise fun a b => rank a < rank b)
    {m : Nat} {a b : Axial Int} (ha : a ∈ l) (hb : b ∈ l.take m) (hab : rank a < rank b) :
    a ∈ l.take m := by
  rw [← List.take_append_drop m l] at h ha
  rcases List.mem_append.mp ha with ha | ha
  · exact ha
  · exact absurd hab (lt_asymm ((List.pairwise_append.mp h).2.2 b hb a ha))

/-! ## Initial lists -/

/-- A list goes up in rank, and no place below one of its own is missing. -/
structure IsInitial (l : List (Axial Int)) : Prop where
  ascending : l.Pairwise fun a b => rank a < rank b
  closed : ∀ b ∈ l, ∀ a, rank a < rank b → a ∈ l

namespace IsInitial

variable {l l' : List (Axial Int)}

theorem nodup (h : IsInitial l) : l.Nodup := by
  refine h.ascending.imp ?_
  rintro a b hab rfl
  exact lt_irrefl _ hab

/-- Of two initial lists the longer one holds all places of the other. -/
theorem subset (h : IsInitial l) (h' : IsInitial l') (hlen : l.length ≤ l'.length) : l ⊆ l' := by
  by_contra hnot
  obtain ⟨b, hb, hb'⟩ : ∃ b ∈ l, b ∉ l' := by
    simpa [List.subset_def] using hnot
  -- then all of `l'` ranks below `b`, and so `l` holds it and `b` too
  have hsub : b :: l' ⊆ l := by
    intro a ha
    rcases List.mem_cons.mp ha with rfl | ha
    · exact hb
    · rcases lt_trichotomy (rank a) (rank b) with hlt | heq | hgt
      · exact h.closed b hb a hlt
      · rw [rank_injective heq]
        exact hb
      · exact absurd (h'.closed a ha b hgt) hb'
  have hnodup : (b :: l').Nodup := List.nodup_cons.mpr ⟨hb', h'.nodup⟩
  have := (List.subperm_of_subset hnodup hsub).length_le
  simp only [List.length_cons] at this
  omega

/-- **Initial lists of one length are the same.** -/
theorem eq_of_length_eq (h : IsInitial l) (h' : IsInitial l') (hlen : l.length = l'.length) :
    l = l' := by
  have hperm : l.Perm l' :=
    (List.subperm_of_subset h.nodup (h.subset h' (Nat.le_of_eq hlen))).perm_of_length_le
      (Nat.le_of_eq hlen.symm)
  refine hperm.eq_of_pairwise ?_ h.ascending h'.ascending
  intro a b _ _ hab hba
  exact absurd hba (lt_asymm hab)

/-- What comes before a place in an initial list is all that ranks below it. -/
theorem mem_past {past later : List (Axial Int)} {a b : Axial Int}
    (h : IsInitial (past ++ a :: later)) (hb : rank b < rank a) : b ∈ past := by
  have hmem := h.closed a (by simp) b hb
  rcases List.mem_append.mp hmem with hpast | hlater
  · exact hpast
  · exfalso
    have hrest := (List.pairwise_append.mp h.ascending).2.1
    rcases List.mem_cons.mp hlater with rfl | hlater
    · exact lt_irrefl _ hb
    · exact lt_asymm hb (List.rel_of_pairwise_cons hrest hlater)

theorem take (h : IsInitial l) (m : Nat) : IsInitial (l.take m) := by
  refine ⟨h.ascending.sublist (List.take_sublist m l), ?_⟩
  intro b hb a hab
  exact mem_take_of_rank_lt h.ascending (h.closed b (List.mem_of_mem_take hb) a hab) hb hab

end IsInitial

/-! ## A ring in order -/

/-- **A stable sort keeps ties in order**: what holds between any two elements that stand in this
order and tie holds between them after sorting. -/
theorem pairwise_mergeSort_of_ties {α : Type} {le : α → α → Bool} {R : α → α → Prop}
    (trans : ∀ a b c, le a b = true → le b c = true → le a c = true)
    (total : ∀ a b, (le a b || le b a) = true) {l : List α}
    (h : l.Pairwise fun a b => le a b = true → le b a = true → R a b) :
    (l.mergeSort le).Pairwise fun a b => le b a = true → R a b := by
  induction l with
  | nil => simp
  | cons a l ih =>
    obtain ⟨hhead, htail⟩ := List.pairwise_cons.mp h
    obtain ⟨l₁, l₂, hsort, hrest, hbelow⟩ := List.mergeSort_cons trans total a l
    have hsorted := List.pairwise_mergeSort trans total (a :: l)
    have hih := ih htail
    rw [hsort] at hsorted ⊢
    rw [hrest] at hih
    have hafter : ∀ b ∈ l₂, le a b = true := fun b hb =>
      List.rel_of_pairwise_cons (List.pairwise_append.mp hsorted).2.1 hb
    have hmem : ∀ b ∈ l₂, b ∈ l := fun b hb =>
      (List.mergeSort_perm l le).mem_iff.mp (hrest ▸ List.mem_append_right _ hb)
    rw [List.pairwise_append] at hih ⊢
    obtain ⟨h₁, h₂, hcross⟩ := hih
    refine ⟨h₁, List.pairwise_cons.mpr ⟨?_, h₂⟩, ?_⟩
    · intro b hb htie
      exact hhead b (hmem b hb) (hafter b hb) htie
    · intro b hb c hc htie
      rcases List.mem_cons.mp hc with rfl | hc
      · have := hbelow b hb
        simp [htie] at this
      · exact hcross b hb c hc htie

theorem inOrder_iff {a b : Axial Int} :
    inOrder a b = true ↔ b.q < a.q ∨ a.q = b.q ∧ a.r.natAbs ≤ b.r.natAbs := by
  simp [inOrder]

theorem inOrder_trans (a b c : Axial Int) (hab : inOrder a b = true) (hbc : inOrder b c = true) :
    inOrder a c = true := by
  rw [inOrder_iff] at hab hbc ⊢
  omega

theorem inOrder_total (a b : Axial Int) : (inOrder a b || inOrder b a) = true := by
  rw [Bool.or_eq_true, inOrder_iff, inOrder_iff]
  omega

theorem mem_sortedRing {k : Nat} {a : Axial Int} : a ∈ sortedRing k ↔ a.distance = k := by
  rw [sortedRing, List.mem_mergeSort, mem_ring_iff]

theorem length_sortedRing {k : Nat} (hk : k ≠ 0) : (sortedRing k).length = 6 * k := by
  rw [sortedRing, List.length_mergeSort, length_ring hk]

/-- **A sorted ring goes up in rank**, also where the sort sees a tie. -/
theorem ascending_sortedRing (k : Nat) :
    (sortedRing k).Pairwise fun a b => rank a < rank b := by
  have hsorted : (sortedRing k).Pairwise fun a b => inOrder a b = true :=
    List.pairwise_mergeSort inOrder_trans inOrder_total (ring k)
  have hties : (sortedRing k).Pairwise fun a b => inOrder b a = true → b.r < a.r := by
    apply pairwise_mergeSort_of_ties inOrder_trans inOrder_total
    refine (ring_pairwise k).imp ?_
    intro a b h hab hba
    rw [inOrder_iff] at hab hba
    exact h (by omega) (by omega)
  refine (hsorted.and hties).imp_of_mem ?_
  rintro a b ha hb ⟨hab, htie⟩
  rw [mem_sortedRing] at ha hb
  rw [inOrder_iff] at hab htie
  rw [rank_lt_iff]
  refine .inr ⟨ha.trans hb.symm, ?_⟩
  by_cases hsame : a.q = b.q ∧ a.r.natAbs = b.r.natAbs
  · have := htie (by omega)
    omega
  · omega

/-! ## Filling ring by ring -/

/-- **What is filled in outside a ring** is as much as was missing, goes up in rank, and leaves out
nothing outside the ring below what it holds. -/
theorem fill_spec (missing k : Nat) :
    (fill missing k).length = missing ∧
      ((fill missing k).Pairwise fun a b => rank a < rank b) ∧
      (∀ a ∈ fill missing k, k < a.distance) ∧
      ∀ b ∈ fill missing k, ∀ a : Axial Int, k < a.distance → rank a < rank b →
        a ∈ fill missing k := by
  induction missing, k using fill.induct with
  | case1 k => simp [fill]
  | case2 missing k hmissing ih =>
    obtain ⟨hlength, hascending, hbeyond, hclosed⟩ := ih
    rw [fill, if_neg hmissing]
    have hring := length_sortedRing (k := k + 1) (by omega)
    have hnext : ∀ a ∈ (sortedRing (k + 1)).take missing, a.distance = k + 1 := fun a ha =>
      mem_sortedRing.mp (List.mem_of_mem_take ha)
    refine ⟨?_, ?_, ?_, ?_⟩
    · rw [List.length_append, List.length_take, hring, hlength]
      omega
    · rw [List.pairwise_append]
      refine ⟨(ascending_sortedRing (k + 1)).sublist (List.take_sublist _ _), hascending, ?_⟩
      intro a ha b hb
      apply rank_lt_of_distance_lt
      rw [hnext a ha]
      exact hbeyond b hb
    · intro a ha
      rcases List.mem_append.mp ha with ha | ha
      · rw [hnext a ha]
        omega
      · have := hbeyond a ha
        omega
    · intro b hb a ha hab
      rw [List.mem_append]
      have hle := distance_le_of_rank_lt hab
      rcases List.mem_append.mp hb with hb | hb
      · rw [hnext b hb] at hle
        have hmem : a ∈ sortedRing (k + 1) := mem_sortedRing.mpr (by omega)
        exact .inl (mem_take_of_rank_lt (ascending_sortedRing (k + 1)) hmem hb hab)
      · by_cases hfar : k + 1 < a.distance
        · exact .inr (hclosed b hb a hfar hab)
        · -- something is filled in beyond the next ring, and so that ring is used up
          have hall : (sortedRing (k + 1)).length ≤ missing := by
            have := List.length_pos_of_mem hb
            omega
          rw [List.take_of_length_le hall]
          exact .inl (mem_sortedRing.mpr (by omega))

/-! ## Positions -/

theorem distance_eq_zero_iff {a : Axial Int} : a.distance = 0 ↔ a = Axial.origin := by
  rw [← mem_ring_iff, ring, if_pos rfl, List.mem_singleton]

/-- **The positions are an initial list** of the length asked for. -/
theorem isInitial_positions (n : Nat) : IsInitial (positions n) ∧ (positions n).length = n := by
  cases n with
  | zero => exact ⟨⟨.nil, nofun⟩, rfl⟩
  | succ missing =>
    obtain ⟨hlength, hascending, hbeyond, hclosed⟩ := fill_spec missing 0
    have horigin : Axial.origin.distance = 0 := distance_eq_zero_iff.mpr rfl
    refine ⟨⟨List.pairwise_cons.mpr ⟨?_, hascending⟩, ?_⟩, ?_⟩
    · intro a ha
      apply rank_lt_of_distance_lt
      rw [horigin]
      exact hbeyond a ha
    · intro b hb a hab
      by_cases hzero : a.distance = 0
      · rw [distance_eq_zero_iff.mp hzero]
        exact List.mem_cons_self
      · rcases List.mem_cons.mp hb with rfl | hb
        · have := distance_le_of_rank_lt hab
          omega
        · exact List.mem_cons_of_mem _ (hclosed b hb a (Nat.pos_of_ne_zero hzero) hab)
    · rw [positions, List.length_cons, hlength]

/-- A positive whole number that is a float is recognised as a count. -/
theorem positiveInteger?_ofNat {n : Nat} (hn : 1 ≤ n) (hfits : Binary.Fits n)
    (hmax : n.log2 ≤ 1023) : positiveInteger? (Binary.ofNat n).float = some n := by
  have hcanonical := (Binary.canonical_ofNat hn hmax).1
  rw [positiveInteger?, hcanonical.unpack_float, Binary.unpacked_eq hcanonical.positive]
  dsimp only [Binary.ofNat]
  rw [Nat.shiftLeft_eq, Nat.shiftRight_eq_div_pow]
  simp only [Nat.pow_eq]
  rcases Nat.le_total n.log2 52 with hlog | hlog
  · -- the significand holds places behind the point, and none of them is set
    rw [show (-((n.log2 : Int) - 52)).toNat = 52 - n.log2 by omega,
      show ((n.log2 : Int) - 52).toNat = 0 by omega, Nat.sub_eq_zero_of_le hlog]
    simp
  · rw [show (-((n.log2 : Int) - 52)).toNat = 0 by omega,
      show ((n.log2 : Int) - 52).toNat = n.log2 - 52 by omega, Nat.sub_eq_zero_of_le hlog]
    simp [Nat.div_mul_cancel hfits, Nat.mod_one]

/-- **The positions are the first places of the grid in order.**  For every `n` above zero, `n`
places are given, going up in rank, and every place that ranks below one of them is among them; no
other list is like that.  So the origin comes first, no place comes twice, a ring is used up before
the next one begins, and the positions of a smaller number are the first ones of a greater.  They
are what is answered to `n` as a number, as long as `n` is one. -/
theorem positions_spec (n : Nat) (hn : 1 ≤ n) :
    (positions n).length = n ∧
      ((positions n).Pairwise fun a b => rank a < rank b) ∧
      (∀ b ∈ positions n, ∀ a, rank a < rank b → a ∈ positions n) ∧
      (∀ l : List (Axial Int), l.length = n → (l.Pairwise fun a b => rank a < rank b) →
        (∀ b ∈ l, ∀ a, rank a < rank b → a ∈ l) → l = positions n) ∧
      (positions n).head? = some Axial.origin ∧
      (positions n).Nodup ∧
      (∀ past a later, positions n = past ++ a :: later →
        ∀ b : Axial Int, b.distance < a.distance → b ∈ past) ∧
      (∀ m ≤ n, positions m <+: positions n) ∧
      (Binary.Fits n → n.log2 ≤ 1023 →
        positionsOfCount (Binary.ofNat n).float = .ok (positions n)) := by
  obtain ⟨hinitial, hlength⟩ := isInitial_positions n
  refine ⟨hlength, hinitial.ascending, hinitial.closed, ?_, ?_, hinitial.nodup, ?_, ?_, ?_⟩
  · intro l hl hascending hclosed
    exact IsInitial.eq_of_length_eq ⟨hascending, hclosed⟩ hinitial (hl.trans hlength.symm)
  · cases n with
    | zero => omega
    | succ missing => rfl
  · intro past a later hsplit b hb
    rw [hsplit] at hinitial
    exact hinitial.mem_past (rank_lt_of_distance_lt hb)
  · intro m hm
    obtain ⟨hfirst, hcount⟩ := isInitial_positions m
    have htake : positions m = (positions n).take m := by
      apply hfirst.eq_of_length_eq (hinitial.take m)
      rw [hcount, List.length_take, hlength]
      omega
    rw [htake]
    exact List.take_prefix m _
  · intro hfits hmax
    rw [positionsOfCount, positiveInteger?_ofNat hn hfits hmax]

/-- Twenty places: the origin, two whole rings, and the first place of the third one. -/
theorem positions_twenty :
    1 ≤ 20 ∧ (positions 20).length = 20 ∧ (positions 20).getLast? = some ⟨3, 0⟩ ∧
      (∀ b ∈ positions 20, ∀ a, rank a < rank b → a ∈ positions 20) ∧
      positions 7 <+: positions 20 ∧
      positions 7 = [⟨0, 0⟩, ⟨1, 0⟩, ⟨1, -1⟩, ⟨0, 1⟩, ⟨0, -1⟩, ⟨-1, 0⟩, ⟨-1, 1⟩] ∧
      positionsOfCount 20 = .ok (positions 20) := by
  obtain ⟨hlength, -, hclosed, -, -, -, -, hprefix, hcount⟩ := positions_spec 20 (by decide)
  refine ⟨by decide, hlength, by cbv, hclosed, hprefix 7 (by decide), by cbv, ?_⟩
  have h20 : (20 : Float) = (Binary.ofNat 20).float := by decide +kernel
  rw [h20]
  exact hcount (by decide +kernel) (by decide +kernel)

end Honeycomb.Spiral
