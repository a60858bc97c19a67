import Honeycomb.Grid.Bounds
import Honeycomb.Proofs.Scalar

/-!
# The least box around hexagons

* `Bounds.Within` — a box that lies in another one.
* `ofHexagons_within_iff` — the box around hexagons is the least one that holds all of them.
* `ofHexagons_shift` — the box around hexagons that are moved is moved with them.
-/

set_option autoImplicit false

namespace Honeycomb

variable {K : Type} [Field K] [LinearOrder K] [RootThree K]

/-- A point moved by a vector. -/
def Point.shift (p d : Point K) : Point K := ⟨p.x + d.x, p.y + d.y⟩

namespace Bounds

/-- A box lies in another one. -/
structure Within (a b : Bounds K) : Prop where
  left : b.minX ≤ a.minX
  upper : b.minY ≤ a.minY
  right : a.maxX ≤ b.maxX
  lower : a.maxY ≤ b.maxY

/-- A box moved by a vector. -/
def shift (b : Bounds K) (d : Point K) : Bounds K :=
  ⟨b.minX + d.x, b.minY + d.y, b.maxX + d.x, b.maxY + d.y⟩

/-! ## The least box -/

theorem union_within_iff {a b c : Bounds K} :
    (a.union b).Within c ↔ a.Within c ∧ b.Within c := by
  constructor
  · rintro ⟨hl, hu, hr, hd⟩
    obtain ⟨hla, hlb⟩ := le_min_iff.mp hl
    obtain ⟨hua, hub⟩ := le_min_iff.mp hu
    obtain ⟨hra, hrb⟩ := max_le_iff.mp hr
    obtain ⟨hda, hdb⟩ := max_le_iff.mp hd
    exact ⟨⟨hla, hua, hra, hda⟩, ⟨hlb, hub, hrb, hdb⟩⟩
  · rintro ⟨⟨hla, hua, hra, hda⟩, ⟨hlb, hub, hrb, hdb⟩⟩
    exact ⟨le_min hla hlb, le_min hua hub, max_le hra hrb, max_le hda hdb⟩

theorem foldl_union_within_iff {size : K} {cs : List (Point K)} {box b : Bounds K} :
    (cs.foldl (fun box c => box.union (ofHexagon size c)) box).Within b ↔
      box.Within b ∧ ∀ c ∈ cs, (ofHexagon size c).Within b := by
  induction cs generalizing box with
  | nil => simp
  | cons c cs ih =>
    rw [List.foldl_cons, ih, union_within_iff, List.forall_mem_cons, and_assoc]

/-- **The box around hexagons is the least one that holds all of them.** -/
theorem ofHexagons_within_iff {size : K} {cs : List (Point K)} (h : cs ≠ []) {b : Bounds K} :
    (ofHexagons size cs).Within b ↔ ∀ c ∈ cs, (ofHexagon size c).Within b := by
  cases cs with
  | nil => exact absurd rfl h
  | cons c cs => rw [ofHexagons, foldl_union_within_iff, List.forall_mem_cons]

/-! ## Moving -/

theorem ofHexagon_shift (size : K) (c d : Point K) :
    ofHexagon size (c.shift d) = (ofHexagon size c).shift d := by
  simp only [ofHexagon, shift, Point.shift, Bounds.mk.injEq]
  refine ⟨?_, ?_, ?_, ?_⟩ <;> ring

variable [IsStrictOrderedRing K]

theorem union_shift (a b : Bounds K) (d : Point K) :
    (a.shift d).union (b.shift d) = (a.union b).shift d := by
  simp only [union, shift, Bounds.mk.injEq]
  exact ⟨min_add_add_right _ _ _, min_add_add_right _ _ _, max_add_add_right _ _ _,
    max_add_add_right _ _ _⟩

/-- **The box around hexagons that are moved is moved with them.** -/
theorem ofHexagons_shift (size : K) (d : Point K) {cs : List (Point K)} (h : cs ≠ []) :
    ofHexagons size (cs.map (·.shift d)) = (ofHexagons size cs).shift d := by
  cases cs with
  | nil => exact absurd rfl h
  | cons c cs =>
    rw [List.map_cons, ofHexagons, ofHexagons, ofHexagon_shift]
    generalize ofHexagon size c = box
    clear h
    induction cs generalizing box with
    | nil => rfl
    | cons c cs ih =>
      rw [List.map_cons, List.foldl_cons, List.foldl_cons, ofHexagon_shift, union_shift, ih]

end Bounds

end Honeycomb
