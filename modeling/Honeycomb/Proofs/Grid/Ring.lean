import Mathlib.Data.List.Range
import Mathlib.Tactic.Ring
import Honeycomb.Grid.Ring

/-!
# Rings hold the places at one distance

The walk around the origin at radius `k` goes through six corners, with `k` steps from each one to
the next.

* `side_eq_map`, `around_eq` — the places on a side, and the six sides of a ring.
* `mem_ring_iff` — a place is on the ring `k` exactly if its distance from the origin is `k`.
* `length_ring` — outside the origin the ring `k` has `6 * k` places.
* `ring_pairwise` — of two places of a ring in one column, equally far from the middle row, the walk
  comes first to the one with the greater `r`; so it comes to no place twice.
-/

set_option autoImplicit false

namespace Honeycomb.Axial

/-! ## Sides -/

theorem along_eq (d : Axial Int) (n : Nat) (a : Axial Int) :
    along d n a = ⟨a.q + n * d.q, a.r + n * d.r⟩ := by
  induction n generalizing a with
  | zero => simp [along]
  | succ n ih =>
    rw [along, ih]
    simp only [step, Int.cast_id, Nat.cast_succ, Axial.mk.injEq]
    constructor <;> ring

/-- The places on a side are those after no step, one step, and so on. -/
theorem side_eq_map (d : Axial Int) (n : Nat) (a : Axial Int) :
    side d n a =
      (List.range n).map fun i : Nat => (⟨a.q + i * d.q, a.r + i * d.r⟩ : Axial Int) := by
  induction n generalizing a with
  | zero => rfl
  | succ n ih =>
    rw [side, ih, List.range_succ_eq_map, List.map_cons, List.map_map]
    congr 1
    · simp
    · apply List.map_congr_left
      intro i _
      simp only [step, Int.cast_id, Function.comp_apply, Nat.succ_eq_add_one, Nat.cast_succ,
        Axial.mk.injEq]
      constructor <;> ring

theorem mem_side {d a x : Axial Int} {n : Nat} :
    x ∈ side d n a ↔ ∃ i : Nat, i < n ∧ x = ⟨a.q + i * d.q, a.r + i * d.r⟩ := by
  rw [side_eq_map, List.mem_map]
  simp only [List.mem_range, eq_comm]

theorem length_side (d : Axial Int) (n : Nat) (a : Axial Int) : (side d n a).length = n := by
  rw [side_eq_map, List.length_map, List.length_range]

theorem pairwise_side {R : Axial Int → Axial Int → Prop} {d a : Axial Int} {n : Nat}
    (h : ∀ i j : Nat, i < j → j < n →
      R ⟨a.q + i * d.q, a.r + i * d.r⟩ ⟨a.q + j * d.q, a.r + j * d.r⟩) :
    (side d n a).Pairwise R := by
  rw [side_eq_map, List.pairwise_map]
  refine List.pairwise_lt_range.imp_of_mem ?_
  intro i j _ hj hij
  exact h i j hij (List.mem_range.mp hj)

/-! ## Rings -/

/-- A ring is made of six sides, from corner to corner. -/
theorem around_eq (k : Nat) :
    around (k : Int) k =
      ([side ⟨1, 0⟩ k ⟨-k, k⟩, side ⟨1, -1⟩ k ⟨0, k⟩, side ⟨0, -1⟩ k ⟨k, 0⟩, side ⟨-1, 0⟩ k ⟨k, -k⟩,
        side ⟨-1, 1⟩ k ⟨0, -k⟩, side ⟨0, 1⟩ k ⟨-k, 0⟩] : List (List (Axial Int))).flatten := by
  simp [around, walk, directions, along_eq, corner, startDirection]

/-- A place on a ring lies some steps from one of the six corners. -/
theorem mem_around_iff {k : Nat} {x : Axial Int} :
    x ∈ around (k : Int) k ↔ ∃ i : Nat, i < k ∧
      (x = ⟨-k + i, k⟩ ∨ x = ⟨i, k - i⟩ ∨ x = ⟨k, -i⟩ ∨ x = ⟨k - i, -k⟩ ∨ x = ⟨-i, -k + i⟩ ∨
        x = ⟨-k, i⟩) := by
  simp [around_eq, mem_side, sub_eq_add_neg, and_or_left, exists_or]

/-- A place is at distance `k` if no coordinate goes beyond `k` and one of them is that far out. -/
theorem distance_eq_iff {k : Nat} {x : Axial Int} :
    x.distance = k ↔ (-k ≤ x.q ∧ x.q ≤ k) ∧ (-k ≤ x.r ∧ x.r ≤ k) ∧
      (-k ≤ x.q + x.r ∧ x.q + x.r ≤ k) ∧
      (x.q = k ∨ x.q = -k ∨ x.r = k ∨ x.r = -k ∨ x.q + x.r = k ∨ x.q + x.r = -k) := by
  unfold distance
  constructor
  · intro h
    omega
  · intro h
    omega

/-- **The ring `k` holds the places at distance `k`.** -/
theorem mem_ring_iff {k : Nat} {x : Axial Int} : x ∈ ring k ↔ x.distance = k := by
  rw [distance_eq_iff]
  obtain ⟨q, r⟩ := x
  unfold ring
  split
  · rename_i hk
    subst hk
    simp only [origin, List.mem_singleton, Axial.mk.injEq]
    omega
  · rw [mem_around_iff]
    simp only [Axial.mk.injEq]
    constructor
    · rintro ⟨i, hi, h | h | h | h | h | h⟩ <;> omega
    · rintro ⟨hq, hr, hs, h⟩
      -- which coordinate is the extreme one tells the side, and another one the number of steps
      by_cases h₁ : r = k ∧ q < 0
      · exact ⟨(q + k).toNat, by omega, .inl (by omega)⟩
      by_cases h₂ : q + r = k ∧ q < k
      · exact ⟨q.toNat, by omega, .inr (.inl (by omega))⟩
      by_cases h₃ : q = k ∧ -k < r
      · exact ⟨(-r).toNat, by omega, .inr (.inr (.inl (by omega)))⟩
      by_cases h₄ : r = -k ∧ 0 < q
      · exact ⟨(k - q).toNat, by omega, .inr (.inr (.inr (.inl (by omega))))⟩
      by_cases h₅ : q + r = -k ∧ -k < q
      · exact ⟨(-q).toNat, by omega, .inr (.inr (.inr (.inr (.inl (by omega)))))⟩
      · exact ⟨r.toNat, by omega, .inr (.inr (.inr (.inr (.inr (by omega)))))⟩

theorem length_ring {k : Nat} (hk : k ≠ 0) : (ring k).length = 6 * k := by
  rw [ring, if_neg hk, around_eq]
  simp only [List.length_flatten, List.map_cons, List.map_nil, length_side, List.sum_cons,
    List.sum_nil]
  omega

/-- **The walk goes from the lower half to the upper one**: of two places in one column that are
equally far from the middle row, it comes first to the one with the greater `r`. -/
theorem ring_pairwise (k : Nat) :
    (ring k).Pairwise fun a b => a.q = b.q → a.r.natAbs = b.r.natAbs → b.r < a.r := by
  unfold ring
  split
  · exact List.pairwise_singleton _ _
  · rw [around_eq, List.pairwise_flatten]
    constructor
    · -- along a side the column or the distance from the middle row changes with every step
      simp only [List.forall_mem_cons]
      refine ⟨?_, ?_, ?_, ?_, ?_, ?_, by simp⟩ <;>
      · apply pairwise_side
        intro i j hij hj
        dsimp only
        omega
    · simp only [List.pairwise_cons, List.forall_mem_cons, mem_side]
      refine ⟨⟨?_, ?_, ?_, ?_, ?_, by simp⟩, ⟨?_, ?_, ?_, ?_, by simp⟩, ⟨?_, ?_, ?_, by simp⟩,
        ⟨?_, ?_, by simp⟩, ⟨?_, by simp⟩, by simp, .nil⟩ <;>
      · rintro _ ⟨i, hi, rfl⟩ _ ⟨j, hj, rfl⟩
        dsimp only
        omega

theorem nodup_ring (k : Nat) : (ring k).Nodup := by
  refine (ring_pairwise k).imp ?_
  rintro a _ h rfl
  exact lt_irrefl _ (h rfl rfl)

end Honeycomb.Axial
