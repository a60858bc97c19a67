import Honeycomb.Grid.Fit
import Honeycomb.Proofs.Grid.Bounds

/-!
# The size that is chosen

* `exists_choose_eq` — whatever the surface, the size is one of the candidates.
* `choose_bounds` — so it lies between the least and the greatest one.
* `fits_iff` — hexagons fit if their box and the padding on both sides are no greater than the
  surface; `fits_of_within` takes any box around them.
-/

set_option autoImplicit false

namespace Honeycomb.HexSize

variable {K : Type} [Field K] [LinearOrder K] [RootThree K]

theorem exists_choose_eq (places : List (Axial K)) (surface : Viewport K) (padding : K) :
    ∃ n ∈ candidates, choose places surface padding = (n : K) := by
  unfold choose
  split
  · rename_i size hfind
    obtain ⟨n, hn, hsize⟩ := List.mem_map.mp (List.mem_of_find?_eq_some hfind)
    exact ⟨n, hn, hsize.symm⟩
  · exact ⟨smallest, by decide, rfl⟩

theorem candidates_bounds : ∀ n ∈ candidates, 18 ≤ n ∧ n ≤ 56 := by decide

theorem choose_bounds [IsStrictOrderedRing K] (places : List (Axial K)) (surface : Viewport K)
    (padding : K) :
    18 ≤ choose places surface padding ∧ choose places surface padding ≤ 56 := by
  obtain ⟨n, hn, heq⟩ := exists_choose_eq places surface padding
  obtain ⟨hlow, hhigh⟩ := candidates_bounds n hn
  rw [heq]
  constructor
  · exact_mod_cast hlow
  · exact_mod_cast hhigh

theorem fits_iff {places : List (Axial K)} {surface : Viewport K} {padding size : K} :
    fits places surface padding size = true ↔
      (Bounds.ofHexagons size (places.map (Axial.project size))).width + padding * 2 ≤
          surface.width ∧
        (Bounds.ofHexagons size (places.map (Axial.project size))).height + padding * 2 ≤
          surface.height := by
  simp only [fits, Scalar.ofInt_eq, Int.cast_ofNat, Bool.and_eq_true, decide_eq_true_eq]

/-- Hexagons fit if they lie in some box that leaves room for the padding. -/
theorem fits_of_within [IsStrictOrderedRing K] {places : List (Axial K)} {surface : Viewport K}
    {padding size : K} {b : Bounds K} (hne : places ≠ [])
    (hwithin : ∀ a ∈ places, (Bounds.ofHexagon size (a.project size)).Within b)
    (hwidth : b.width + padding * 2 ≤ surface.width)
    (hheight : b.height + padding * 2 ≤ surface.height) :
    fits places surface padding size = true := by
  have hbox : (Bounds.ofHexagons size (places.map (Axial.project size))).Within b := by
    rw [Bounds.ofHexagons_within_iff (by simpa using hne), List.forall_mem_map]
    exact hwithin
  obtain ⟨hl, hu, hr, hd⟩ := hbox
  rw [fits_iff]
  simp only [Bounds.width, Bounds.height] at hwidth hheight ⊢
  constructor <;> linarith

/-- The largest size is chosen if it fits. -/
theorem choose_of_fits {places : List (Axial K)} {surface : Viewport K} {padding : K}
    (h : fits places surface padding 56 = true) : choose places surface padding = 56 := by
  have hfirst : candidates = 56 :: candidates.tail := by decide
  have hsize : (Scalar.ofInt 56 : K) = 56 := Int.cast_ofNat 56
  rw [choose, hfirst, List.map_cons, hsize, List.find?_cons_of_pos h]

end Honeycomb.HexSize
