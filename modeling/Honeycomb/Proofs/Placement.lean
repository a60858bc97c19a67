import Honeycomb.Placement
import Honeycomb.Proofs.Scalar

/-!
# Where a popup stays on its surface

A popup is moved away from the upper and the lower edge of its surface, but not from the left one:
where the surface has no room for it on either side of its hexagon, it leaves the surface on the
left.

* `top_bounds` — a popup keeps its margin from the upper and the lower edge.
* `left_inside_iff` — it lies between the left and the right edge exactly if it has room on one of
  the two sides of its hexagon.
* `left_apart` — it stands clear of its hexagon.
* `place_beside` — all of this for the whole popup, and the widths that are always enough.
* `inside_everywhere_iff` — the widths from which on it stays inside, wherever its hexagon is.
* `place_leaves_narrow_surface` — a surface with more than the margins to spare that it leaves.
-/

set_option autoImplicit false

namespace Honeycomb.Placement

section Surface

variable {α : Type} [Scalar α]

/-- A point on a surface. -/
structure OnSurface (p : Point α) (surface : Viewport α) : Prop where
  left : Scalar.ofInt 0 ≤ p.x
  right : p.x ≤ surface.width
  upper : Scalar.ofInt 0 ≤ p.y
  lower : p.y ≤ surface.height

/-- A surface that is greater than a popup by a margin on every side. -/
structure Roomy (surface size : Viewport α) : Prop where
  wide : Scalar.ofInt 0 < size.width
  high : Scalar.ofInt 0 < size.height
  width : size.width + Scalar.ofInt 20 ≤ surface.width
  height : size.height + Scalar.ofInt 20 ≤ surface.height

/-- A rectangle that lies on a surface, given by its upper left corner and its size. -/
structure Inside (corner : Point α) (size surface : Viewport α) : Prop where
  left : Scalar.ofInt 0 ≤ corner.x
  right : corner.x + size.width ≤ surface.width
  upper : Scalar.ofInt 0 ≤ corner.y
  lower : corner.y + size.height ≤ surface.height

end Surface

section Exact

variable {K : Type} [Field K] [LinearOrder K] [IsStrictOrderedRing K] [RootThree K]

/-! ## Up and down -/

/-- **A popup keeps its margin from the upper and the lower edge**, wherever its hexagon is. -/
theorem top_bounds {y surfaceHeight height : K} (h : height + 20 ≤ surfaceHeight) :
    10 ≤ top y surfaceHeight height ∧ top y surfaceHeight height + height ≤ surfaceHeight := by
  simp only [top, margin, rise, Scalar.ofInt_eq, Int.cast_ofNat]
  have hlowered : (10 : K) ≤ if y - 50 < 10 then 10 else y - 50 := by
    split
    · exact le_refl _
    · rename_i hle
      exact not_lt.mp hle
  generalize (if y - 50 < 10 then 10 else y - 50) = lowered at hlowered
  split
  · have hmax : max 10 (surfaceHeight - height - 10) = surfaceHeight - height - 10 :=
      max_eq_right (by linarith)
    rw [hmax]
    constructor <;> linarith
  · rename_i hfits
    exact ⟨hlowered, not_lt.mp hfits⟩

/-! ## Left and right -/

omit [IsStrictOrderedRing K] in
theorem left_eq (x hexSize surfaceWidth width : K) :
    left x hexSize surfaceWidth width =
      if surfaceWidth < x + hexSize + 24 + width then x - hexSize - width
      else x + hexSize + 24 := by
  simp only [left, gap, Scalar.ofInt_eq, Int.cast_ofNat]

/-- **A popup stays between the left and the right edge exactly if there is room for it on the right
of its hexagon, gap included, or on the left.** -/
theorem left_inside_iff {x hexSize surfaceWidth width : K} (hsize : 0 ≤ hexSize)
    (hleft : 0 ≤ x) (hright : x ≤ surfaceWidth) :
    0 ≤ left x hexSize surfaceWidth width ∧
        left x hexSize surfaceWidth width + width ≤ surfaceWidth ↔
      x + hexSize + 24 + width ≤ surfaceWidth ∨ hexSize + width ≤ x := by
  rw [left_eq]
  split
  · rename_i hcrosses
    constructor
    · rintro ⟨hedge, -⟩
      exact .inr (by linarith)
    · rintro (hroom | hroom)
      · exact absurd hroom (not_le.mpr hcrosses)
      · constructor <;> linarith
  · rename_i hfits
    have hroom := not_lt.mp hfits
    refine iff_of_true ⟨?_, hroom⟩ (.inl hroom)
    linarith

/-- **A popup stands clear of its hexagon**: from left to right it shares at most an edge with
it. -/
theorem left_apart (x hexSize surfaceWidth width : K) :
    Disjoint
      (Set.Icc (left x hexSize surfaceWidth width) (left x hexSize surfaceWidth width + width))
      (Set.Ioo (x - hexSize) (x + hexSize)) := by
  rw [left_eq, Set.disjoint_left]
  rintro t ⟨hlow, hhigh⟩ ⟨hafter, hbefore⟩
  split at hlow
  · rename_i hcrosses
    rw [if_pos hcrosses] at hhigh
    linarith
  · linarith

omit [RootThree K] in
/-- On a surface that is wide enough there is room for the popup on one of the two sides. -/
theorem exists_room {x hexSize surfaceWidth width : K}
    (hwide : 2 * (width + hexSize) + 24 ≤ surfaceWidth) :
    x + hexSize + 24 + width ≤ surfaceWidth ∨ hexSize + width ≤ x := by
  rcases le_total (x + hexSize + 24 + width) surfaceWidth with h | h
  · exact .inl h
  · exact .inr (by linarith)

omit [RootThree K] in
/-- On a surface that is too narrow some hexagon has no room for the popup on either side. -/
theorem exists_without_room {hexSize surfaceWidth width : K} (hsize : 0 ≤ hexSize)
    (hwidth : 0 < width) (hsurface : 0 ≤ surfaceWidth)
    (hnarrow : surfaceWidth < 2 * (width + hexSize) + 24) :
    ∃ x, 0 ≤ x ∧ x ≤ surfaceWidth ∧ surfaceWidth < x + hexSize + 24 + width ∧
      x < hexSize + width := by
  -- the hexagon that would have equal room on both sides, if that lies on the surface
  rcases le_total 24 surfaceWidth with h | h
  · refine ⟨(surfaceWidth - 24) / 2, ?_, ?_, ?_, ?_⟩ <;> linarith
  · refine ⟨0, ?_, ?_, ?_, ?_⟩ <;> linarith

/-! ## The whole popup -/

/-- **Where a popup stands.**  It never overlaps its hexagon from left to right.  It keeps its
margin from the upper edge and does not cross the lower one, however high or low its hexagon is.
And it lies between the left and the right edge exactly if there is room on the right of its
hexagon, gap included, or on the left; a surface of twice the popup and the hexagon's radius and one
gap always has that room. -/
theorem place_beside {anchor : Point K} {hexSize : K} {surface size : Viewport K}
    (hsize : 0 ≤ hexSize) (hheight : size.height + 20 ≤ surface.height) (hleft : 0 ≤ anchor.x)
    (hright : anchor.x ≤ surface.width) :
    Disjoint
        (Set.Icc (place anchor hexSize surface size).x
          ((place anchor hexSize surface size).x + size.width))
        (Set.Ioo (anchor.x - hexSize) (anchor.x + hexSize)) ∧
      (10 ≤ (place anchor hexSize surface size).y ∧
        (place anchor hexSize surface size).y + size.height ≤ surface.height) ∧
      ((0 ≤ (place anchor hexSize surface size).x ∧
          (place anchor hexSize surface size).x + size.width ≤ surface.width) ↔
        anchor.x + hexSize + 24 + size.width ≤ surface.width ∨
          hexSize + size.width ≤ anchor.x) ∧
      (2 * (size.width + hexSize) + 24 ≤ surface.width →
        0 ≤ (place anchor hexSize surface size).x ∧
          (place anchor hexSize surface size).x + size.width ≤ surface.width) := by
  refine ⟨left_apart anchor.x hexSize surface.width size.width, top_bounds hheight,
    left_inside_iff hsize hleft hright, ?_⟩
  intro hwide
  exact (left_inside_iff hsize hleft hright).mpr (exists_room hwide)

/-- In the middle of a surface of width 300 a popup of the default size has no room: it leaves the
surface, but it does not overlap its hexagon. -/
theorem place_beside_in_the_middle :
    let anchor : Point ℝ := ⟨150, 160⟩
    let surface : Viewport ℝ := ⟨300, 320⟩
    let corner := place anchor 18 surface defaultSize
    (0 : ℝ) ≤ 18 ∧ (defaultSize : Viewport ℝ).height + 20 ≤ surface.height ∧ 0 ≤ anchor.x ∧
      anchor.x ≤ surface.width ∧
      Disjoint (Set.Icc corner.x (corner.x + (defaultSize : Viewport ℝ).width))
        (Set.Ioo (132 : ℝ) 168) ∧
      10 ≤ corner.y ∧ corner.y + (defaultSize : Viewport ℝ).height ≤ 320 ∧
      ¬ (0 ≤ corner.x ∧ corner.x + (defaultSize : Viewport ℝ).width ≤ 300) := by
  intro anchor surface corner
  have hsize : (0 : ℝ) ≤ 18 := by norm_num
  have hheight : (defaultSize : Viewport ℝ).height + 20 ≤ surface.height := by
    norm_num [surface, defaultSize, defaultHeight]
  have hleft : 0 ≤ anchor.x := by norm_num [anchor]
  have hright : anchor.x ≤ surface.width := by norm_num [anchor, surface]
  obtain ⟨hapart, ⟨hupper, hlower⟩, hinside, -⟩ := place_beside hsize hheight hleft hright
  have hends : Set.Ioo (anchor.x - 18) (anchor.x + 18) = Set.Ioo (132 : ℝ) 168 := by
    norm_num [anchor]
  rw [hends] at hapart
  refine ⟨hsize, hheight, hleft, hright, hapart, hupper, hlower, fun h => ?_⟩
  have hroom := hinside.mp h
  norm_num [anchor, surface, defaultSize, defaultWidth] at hroom

theorem place_inside_iff {anchor : Point K} {hexSize : K} {surface size : Viewport K}
    (hsize : 0 ≤ hexSize) (hroomy : Roomy surface size) (hanchor : OnSurface anchor surface) :
    Inside (place anchor hexSize surface size) size surface ↔
      anchor.x + hexSize + 24 + size.width ≤ surface.width ∨
        hexSize + size.width ≤ anchor.x := by
  have hheight := hroomy.height
  have hleft := hanchor.left
  simp only [Scalar.ofInt_eq, Int.cast_zero, Int.cast_ofNat] at hheight hleft
  rw [← left_inside_iff hsize hleft hanchor.right]
  have htop := top_bounds (y := anchor.y) hheight
  constructor
  · rintro ⟨hl, hr, -, -⟩
    simp only [Scalar.ofInt_eq, Int.cast_zero] at hl
    exact ⟨hl, hr⟩
  · rintro ⟨hl, hr⟩
    refine ⟨?_, hr, ?_, htop.2⟩ <;> simp only [Scalar.ofInt_eq, Int.cast_zero]
    · exact hl
    · exact le_trans (by norm_num) htop.1

/-- **When a popup stays on its surface.**  On a surface that is greater than the popup by ten on
every side, it never leaves the surface above or below; and it stays on the surface wherever its
hexagon is centred exactly if the surface is wide enough for the popup on both sides of a hexagon,
with one gap. -/
theorem inside_everywhere_iff {hexSize : K} {surface size : Viewport K} (hsize : 0 ≤ hexSize)
    (hroomy : Roomy surface size) :
    (∀ anchor : Point K, 10 ≤ (place anchor hexSize surface size).y ∧
        (place anchor hexSize surface size).y + size.height ≤ surface.height) ∧
      ((∀ anchor, OnSurface anchor surface →
          Inside (place anchor hexSize surface size) size surface) ↔
        2 * (size.width + hexSize) + 24 ≤ surface.width) := by
  have hwide := hroomy.wide
  have hhigh := hroomy.high
  have hwidth := hroomy.width
  have hheight := hroomy.height
  simp only [Scalar.ofInt_eq, Int.cast_zero, Int.cast_ofNat] at hwide hhigh hwidth hheight
  refine ⟨fun anchor => top_bounds hheight, ?_, ?_⟩
  · intro hall
    by_contra hnarrow
    obtain ⟨x, hx, hx', hright, hleft⟩ :=
      exists_without_room hsize hwide (by linarith) (not_le.mp hnarrow)
    have hanchor : OnSurface ⟨x, 0⟩ surface := by
      refine ⟨?_, hx', ?_, ?_⟩ <;> simp only [Scalar.ofInt_eq, Int.cast_zero]
      · exact hx
      · exact le_refl _
      · linarith
    rcases (place_inside_iff hsize hroomy hanchor).mp (hall _ hanchor) with h | h
    · exact absurd h (not_le.mpr hright)
    · exact absurd h (not_le.mpr hleft)
  · intro henough anchor hanchor
    rw [place_inside_iff hsize hroomy hanchor]
    exact exists_room henough

end Exact

/-- Beside the greatest hexagons a popup of the default size stays on every surface of width 696,
and on no narrower one. -/
theorem inside_everywhere_from_696 :
    (0 : ℝ) ≤ 56 ∧ Roomy (⟨696, 320⟩ : Viewport ℝ) defaultSize ∧
      Roomy (⟨695, 320⟩ : Viewport ℝ) defaultSize ∧
      (∀ anchor, OnSurface anchor ⟨696, 320⟩ →
        Inside (place anchor (56 : ℝ) ⟨696, 320⟩ defaultSize) defaultSize ⟨696, 320⟩) ∧
      ¬ ∀ anchor, OnSurface anchor ⟨695, 320⟩ →
        Inside (place anchor (56 : ℝ) ⟨695, 320⟩ defaultSize) defaultSize ⟨695, 320⟩ := by
  have hwide : Roomy (⟨696, 320⟩ : Viewport ℝ) defaultSize := by
    constructor <;> norm_num [defaultSize, defaultWidth, defaultHeight]
  have hnarrow : Roomy (⟨695, 320⟩ : Viewport ℝ) defaultSize := by
    constructor <;> norm_num [defaultSize, defaultWidth, defaultHeight]
  have hsize : (0 : ℝ) ≤ 56 := by norm_num
  refine ⟨hsize, hwide, hnarrow, (inside_everywhere_iff hsize hwide).2.mpr ?_, fun hall => ?_⟩
  · norm_num [defaultSize, defaultWidth]
  · have := (inside_everywhere_iff hsize hnarrow).2.mp hall
    norm_num [defaultSize, defaultWidth] at this

/-- **A popup leaves a narrow surface.**  On a surface that is greater than a popup of the default
size by ten on every side, beside the least hexagon in its middle, the popup is put 148 to the left
of the surface. -/
theorem place_leaves_narrow_surface :
    ¬ ∀ (anchor : Point Float) (hexSize : Float) (surface size : Viewport Float),
        Scalar.ofInt 18 ≤ hexSize → hexSize ≤ Scalar.ofInt 56 → Roomy surface size →
          OnSurface anchor surface → Inside (place anchor hexSize surface size) size surface := by
  intro hall
  have hroomy : Roomy (⟨300, 320⟩ : Viewport Float) defaultSize := by
    constructor <;> decide +kernel
  have hanchor : OnSurface (⟨150, 160⟩ : Point Float) ⟨300, 320⟩ := by
    constructor <;> decide +kernel
  have hinside := hall ⟨150, 160⟩ 18 ⟨300, 320⟩ defaultSize (by decide +kernel) (by decide +kernel)
    hroomy hanchor
  have hplace : place (⟨150, 160⟩ : Point Float) 18 ⟨300, 320⟩ defaultSize = ⟨-148, 10⟩ := by
    decide +kernel
  rw [hplace] at hinside
  exact absurd hinside.left (by decide +kernel)

end Honeycomb.Placement
