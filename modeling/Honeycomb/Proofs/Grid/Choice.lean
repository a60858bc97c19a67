import Honeycomb.Proofs.Layout

/-!
# The chosen size is the greatest that fits, and shrinks only with the room

Over exact scalars a hexagon of a smaller size lies in a copy of the greater one that is drawn
closer to the origin, and so does the box around all of them.

* `Bounds.Within.scale`, `ofHexagon_scale` — boxes that are drawn closer.
* `HexSize.fits_of_le` — what fits at a size fits at every smaller one.
* `HexSize.fits_of_fewer` — what fits still fits with fewer hexagons, more room or less padding.
* `HexSize.choose_spec` — the size that is chosen is the greatest of those that fit, or the smallest
  of all if none does.
* `choose_greatest_and_monotone` — all of this, and what it says of the places of the spiral.
-/

set_option autoImplicit false

namespace Honeycomb

variable {K : Type} [Field K] [LinearOrder K] [RootThree K]

/-! ## Drawing closer -/

/-- A point drawn closer to the origin. -/
def Point.scale (p : Point K) (s : K) : Point K := ⟨s * p.x, s * p.y⟩

namespace Bounds

/-- A box drawn closer to the origin. -/
def scale (b : Bounds K) (s : K) : Bounds K :=
  ⟨s * b.minX, s * b.minY, s * b.maxX, s * b.maxY⟩

theorem width_scale (b : Bounds K) (s : K) : (b.scale s).width = s * b.width :=
  (mul_sub _ _ _).symm

theorem height_scale (b : Bounds K) (s : K) : (b.scale s).height = s * b.height :=
  (mul_sub _ _ _).symm

theorem ofHexagon_scale (size s : K) (c : Point K) :
    ofHexagon (s * size) (c.scale s) = (ofHexagon size c).scale s := by
  simp only [ofHexagon, scale, Point.scale, halfWidth, Bounds.mk.injEq]
  refine ⟨?_, ?_, ?_, ?_⟩ <;> ring

/-- A box that holds the hexagon of a size has sides that are no negative numbers. -/
theorem Within.sides_nonneg [IsStrictOrderedRing K] {size : K} (hsize : 0 ≤ size) {c : Point K}
    {b : Bounds K} (h : (ofHexagon size c).Within b) : 0 ≤ b.width ∧ 0 ≤ b.height := by
  obtain ⟨hl, hu, hr, hd⟩ := h
  have hhalf : 0 ≤ halfWidth size := by
    have hroot := Scalar.sqrtThree_pos (K := K)
    simp only [halfWidth, Scalar.ofInt_eq, Int.cast_ofNat]
    positivity
  simp only [ofHexagon] at hl hu hr hd
  simp only [width, height]
  constructor <;> linarith

omit [RootThree K] in
theorem Within.scale [IsStrictOrderedRing K] {a b : Bounds K} (h : a.Within b) {s : K}
    (hs : 0 ≤ s) : (a.scale s).Within (b.scale s) :=
  ⟨mul_le_mul_of_nonneg_left h.left hs, mul_le_mul_of_nonneg_left h.upper hs,
    mul_le_mul_of_nonneg_left h.right hs, mul_le_mul_of_nonneg_left h.lower hs⟩

/-- The box around hexagons holds each of them. -/
theorem within_ofHexagons {size : K} {cs : List (Point K)} {c : Point K} (hc : c ∈ cs) :
    (ofHexagon size c).Within (ofHexagons size cs) :=
  (ofHexagons_within_iff (List.ne_nil_of_mem hc)).mp ⟨le_rfl, le_rfl, le_rfl, le_rfl⟩ c hc

end Bounds

theorem Axial.project_scale (size s : K) (a : Axial K) :
    a.project (s * size) = (a.project size).scale s := by
  simp only [project, projectWith, Point.scale, Point.mk.injEq]
  constructor <;> ring

namespace HexSize

/-! ## What fits -/

variable {places : List (Axial K)} {surface : Viewport K} {padding : K}

/-- **What fits at a size fits at every smaller one.** -/
theorem fits_of_le [IsStrictOrderedRing K] (hne : places ≠ []) {small large : K} (hpos : 0 ≤ small)
    (hlarge : 0 < large) (hle : small ≤ large) (h : fits places surface padding large = true) :
    fits places surface padding small = true := by
  -- the boxes of the smaller hexagons are those of the greater ones, drawn closer by this factor
  let s := small / large
  have hs : s * large = small := div_mul_cancel₀ small hlarge.ne'
  have hs0 : 0 ≤ s := div_nonneg hpos hlarge.le
  have hs1 : s ≤ 1 := (div_le_one hlarge).mpr hle
  let box := Bounds.ofHexagons large (places.map (Axial.project large))
  have hbox : ∀ a ∈ places, (Bounds.ofHexagon large (a.project large)).Within box := fun a ha =>
    Bounds.within_ofHexagons (List.mem_map_of_mem ha)
  obtain ⟨a, ha⟩ := List.exists_mem_of_ne_nil places hne
  obtain ⟨hw, hh⟩ := (hbox a ha).sides_nonneg hlarge.le
  obtain ⟨hwidth, hheight⟩ := fits_iff.mp h
  refine fits_of_within (b := box.scale s) hne ?_ ?_ ?_
  · intro a ha
    rw [← hs, Axial.project_scale, Bounds.ofHexagon_scale]
    exact (hbox a ha).scale hs0
  · rw [Bounds.width_scale]
    have := mul_le_of_le_one_left hw hs1
    linarith
  · rw [Bounds.height_scale]
    have := mul_le_of_le_one_left hh hs1
    linarith

/-- **What fits still fits with fewer hexagons, more room or less padding.** -/
theorem fits_of_fewer [IsStrictOrderedRing K] {places' : List (Axial K)} {surface' : Viewport K}
    {padding' size : K} (hne : places' ≠ []) (hsub : places' ⊆ places)
    (hwidth : surface.width ≤ surface'.width) (hheight : surface.height ≤ surface'.height)
    (hpadding : padding' ≤ padding) (h : fits places surface padding size = true) :
    fits places' surface' padding' size = true := by
  obtain ⟨hw, hh⟩ := fits_iff.mp h
  refine fits_of_within (b := Bounds.ofHexagons size (places.map (Axial.project size))) hne ?_ ?_ ?_
  · intro a ha
    exact Bounds.within_ofHexagons (List.mem_map_of_mem (hsub ha))
  · linarith
  · linarith

/-! ## What is chosen -/

/-- The sizes that hexagons may have. -/
def IsSize (n : Int) : Prop := Even n ∧ 18 ≤ n ∧ n ≤ 56

theorem mem_candidates_iff {n : Int} : n ∈ candidates ↔ IsSize n := by
  constructor
  · revert n
    unfold IsSize
    decide
  · rintro ⟨⟨k, rfl⟩, hlow, hhigh⟩
    obtain ⟨i, hi⟩ := Int.eq_ofNat_of_zero_le (show 0 ≤ 28 - k by omega)
    refine List.mem_map.mpr ⟨i, List.mem_range.mpr ?_, ?_⟩
    · simp only [largest, smallest, stepDown]
      omega
    · simp only [largest, stepDown]
      omega

theorem candidates_descending : candidates.Pairwise fun m n => n < m := by decide

/-- The first element of a descending list with a property is the greatest one. -/
theorem isGreatest_of_find? {l : List Int} (h : l.Pairwise fun m n => n < m) {p : Int → Bool}
    {n : Int} (hfind : l.find? p = some n) : IsGreatest {m | m ∈ l ∧ p m = true} n := by
  obtain ⟨hp, before, after, rfl, hbefore⟩ := List.find?_eq_some_iff_append.mp hfind
  refine ⟨⟨by simp, hp⟩, ?_⟩
  rintro m ⟨hm, hpm⟩
  rcases List.mem_append.mp hm with hm | hm
  · have := hbefore m hm
    simp [hpm] at this
  · rcases List.mem_cons.mp hm with rfl | hm
    · exact le_rfl
    · exact (List.rel_of_pairwise_cons (List.pairwise_append.mp h).2.1 hm).le

/-- **The size that is chosen is the greatest that fits**, or the smallest of all if none does. -/
theorem choose_spec (places : List (Axial K)) (surface : Viewport K) (padding : K) :
    (∃ n : Int, IsGreatest {m : Int | IsSize m ∧ fits places surface padding (m : K) = true} n ∧
        choose places surface padding = (n : K)) ∨
      (∀ m : Int, IsSize m → fits places surface padding (m : K) = false) ∧
        choose places surface padding = 18 := by
  have hfind : (candidates.map Scalar.ofInt).find? (fits places surface padding) =
      (candidates.find? fun m : Int => fits places surface padding (m : K)).map Scalar.ofInt :=
    List.find?_map ..
  rw [choose, hfind]
  cases h : candidates.find? fun m : Int => fits places surface padding (m : K) with
  | some n =>
    have hgreatest := isGreatest_of_find? candidates_descending h
    simp only [mem_candidates_iff] at hgreatest
    exact .inl ⟨n, hgreatest, rfl⟩
  | none =>
    refine .inr ⟨?_, Int.cast_ofNat 18⟩
    intro m hm
    simpa using List.find?_eq_none.mp h m (mem_candidates_iff.mpr hm)

/-- Where every size that fits one list fits another one, what is chosen for the other one is no
smaller. -/
theorem choose_le_choose [IsStrictOrderedRing K] {places' : List (Axial K)}
    {surface' : Viewport K} {padding' : K}
    (h : ∀ n : Int, fits places surface padding (n : K) = true →
      fits places' surface' padding' (n : K) = true) :
    choose places surface padding ≤ choose places' surface' padding' := by
  rcases choose_spec places surface padding with ⟨n, ⟨⟨hn, hfits⟩, -⟩, heq⟩ | ⟨-, heq⟩
  · rcases choose_spec places' surface' padding' with ⟨n', ⟨-, hmax⟩, heq'⟩ | ⟨hnone, -⟩
    · rw [heq, heq']
      exact_mod_cast hmax ⟨hn, h n hfits⟩
    · have hno := hnone n hn
      rw [h n hfits] at hno
      cases hno
  · rw [heq]
    exact (choose_bounds places' surface' padding').1

/-- Fewer hexagons, more room or less padding make no chosen size smaller. -/
theorem choose_le_of_fewer [IsStrictOrderedRing K] {places' : List (Axial K)}
    {surface' : Viewport K} {padding' : K} (hne : places' ≠ []) (hsub : places' ⊆ places)
    (hwidth : surface.width ≤ surface'.width) (hheight : surface.height ≤ surface'.height)
    (hpadding : padding' ≤ padding) :
    choose places surface padding ≤ choose places' surface' padding' :=
  choose_le_choose fun _ => fits_of_fewer hne hsub hwidth hheight hpadding

omit [LinearOrder K] [RootThree K] in
/-- The places of a shorter spiral are places of a longer one. -/
theorem cast_positions_subset {m n : Nat} (h : m ≤ n) :
    ((Spiral.positions m).map Axial.cast : List (Axial K)) ⊆
      (Spiral.positions n).map Axial.cast := by
  obtain ⟨hm, hlength⟩ := Spiral.isInitial_positions m
  obtain ⟨hn, hlength'⟩ := Spiral.isInitial_positions n
  apply List.map_subset
  exact hm.subset hn (by rw [hlength, hlength']; exact h)

/-- **The chosen size is the greatest that fits, and shrinks only with the room.**  For some
hexagons, at least one: where one of the sizes 18, 20, .., 56 fits, every smaller one fits; the size
that is chosen is the greatest that fits, and 18 if none does; and it does not get smaller when the
surface gets wider or higher, the padding less, or hexagons are taken away, as long as one is left.
So it does not get greater as the spiral grows. -/
theorem choose_greatest_and_monotone [IsStrictOrderedRing K] {places : List (Axial K)}
    (hne : places ≠ []) (surface : Viewport K) (padding : K) :
    (∀ m n : Int, IsSize m → IsSize n → m ≤ n → fits places surface padding (n : K) = true →
        fits places surface padding (m : K) = true) ∧
      ((∃ n : Int, IsGreatest {m : Int | IsSize m ∧ fits places surface padding (m : K) = true} n ∧
          choose places surface padding = (n : K)) ∨
        (∀ m : Int, IsSize m → fits places surface padding (m : K) = false) ∧
          choose places surface padding = 18) ∧
      (∀ (places' : List (Axial K)) (surface' : Viewport K) (padding' : K), places' ≠ [] →
        places' ⊆ places → surface.width ≤ surface'.width → surface.height ≤ surface'.height →
        padding' ≤ padding →
          choose places surface padding ≤ choose places' surface' padding') ∧
      ∀ m n : Nat, 1 ≤ m → m ≤ n →
        choose ((Spiral.positions n).map Axial.cast) surface padding ≤
          choose ((Spiral.positions m).map Axial.cast) surface padding := by
  refine ⟨?_, choose_spec places surface padding, ?_, ?_⟩
  · intro m n hm hn hle
    have hm0 : (0 : K) ≤ m := by exact_mod_cast (by omega : (0 : Int) ≤ 18).trans hm.2.1
    have hn0 : (0 : K) < n := by exact_mod_cast (by omega : (0 : Int) < 18).trans_le hn.2.1
    exact fits_of_le hne hm0 hn0 (by exact_mod_cast hle)
  · intro places' surface' padding' hne' hsub hwidth hheight hpadding
    exact choose_le_of_fewer hne' hsub hwidth hheight hpadding
  · intro m n hm hle
    have hsome : ((Spiral.positions m).map Axial.cast : List (Axial K)) ≠ [] := by
      rw [← List.length_pos_iff, List.length_map, (Spiral.isInitial_positions m).2]
      exact hm
    exact choose_le_of_fewer hsome (cast_positions_subset hle) le_rfl le_rfl le_rfl

/-- Seven hexagons fit into a page at the greatest size and so at the smallest; the greatest is
chosen for them, and for one of them alone on a wider page. -/
theorem choose_seven_greatest :
    (Layout.places 7 : List (Axial ℝ)) ≠ [] ∧
      fits (Layout.places 7 : List (Axial ℝ)) ⟨1200, 800⟩ 80 ((18 : Int) : ℝ) = true ∧
      choose (Layout.places 7 : List (Axial ℝ)) ⟨1200, 800⟩ 80 = ((56 : Int) : ℝ) ∧
      choose (Layout.places 1 : List (Axial ℝ)) ⟨1600, 800⟩ 80 = ((56 : Int) : ℝ) := by
  have hsome : ∀ n, 1 ≤ n → (Layout.places n : List (Axial ℝ)) ≠ [] := by
    intro n hn
    rw [← List.length_pos_iff, Layout.length_places]
    exact hn
  have hne := hsome 7 (by decide)
  obtain ⟨hdown, hchosen, hmono, -⟩ :=
    choose_greatest_and_monotone hne (⟨1200, 800⟩ : Viewport ℝ) 80
  have hsmall : IsSize 18 := ⟨by decide, by decide, by decide⟩
  have hlarge : IsSize 56 := ⟨by decide, by decide, by decide⟩
  have hfits : fits (Layout.places 7 : List (Axial ℝ)) ⟨1200, 800⟩ 80 ((56 : Int) : ℝ) = true := by
    exact_mod_cast Layout.fits_seven
  have hseven : choose (Layout.places 7 : List (Axial ℝ)) ⟨1200, 800⟩ 80 = ((56 : Int) : ℝ) := by
    rcases hchosen with ⟨n, ⟨⟨hn, -⟩, hmax⟩, heq⟩ | ⟨hnone, -⟩
    · rw [heq, le_antisymm hn.2.2 (hmax ⟨hlarge, hfits⟩)]
    · rw [hnone 56 hlarge] at hfits
      cases hfits
  refine ⟨hne, hdown 18 56 hsmall hlarge (by decide) hfits, hseven, le_antisymm ?_ ?_⟩
  · exact_mod_cast (choose_bounds _ _ _).2
  · rw [← hseven]
    exact hmono _ _ _ (hsome 1 (by decide)) (cast_positions_subset (by decide)) (by norm_num) le_rfl
      le_rfl

end HexSize

end Honeycomb
