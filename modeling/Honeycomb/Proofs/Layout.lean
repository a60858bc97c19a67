import Honeycomb.Layout
import Honeycomb.Proofs.Grid.Bounds
import Honeycomb.Proofs.Grid.Fit
import Honeycomb.Proofs.Grid.Projection
import Honeycomb.Proofs.Grid.Spiral

/-!
# Hexagons of a layout are apart, and in the middle of their surface

Over exact scalars every list of modules can be laid out.

* `ofModules_spec` — one node for each module, at the places of the spiral and at centred positions.
* `centers_pairwise` — two centres are further apart than the circles around their hexagons reach.
* `box_centered` — the box around all hexagons has its middle in the middle of the surface.
* `within_padding` — where the hexagons fit, they keep the padding.
* `hexagons_apart_and_framed` — all of this about the layout of a list of modules.
-/

set_option autoImplicit false

namespace Honeycomb.Layout

variable {K : Type} [Field K] [LinearOrder K] [RootThree K]

/-! ## Nodes -/

theorem nodesOf_spec {modules : List Module} {places : List (Axial K)} {centers : List (Point K)}
    (hplaces : places.length = modules.length) (hcenters : centers.length = modules.length) :
    ∃ nodes, nodesOf modules places centers = .ok nodes ∧ nodes.map (·.module) = modules ∧
      nodes.map (·.place) = places ∧ nodes.map (·.center) = centers := by
  induction modules generalizing places centers with
  | nil =>
    rw [List.length_nil, List.length_eq_zero_iff] at hplaces hcenters
    subst hplaces hcenters
    exact ⟨[], rfl, rfl, rfl, rfl⟩
  | cons m ms ih =>
    obtain ⟨a, as, rfl⟩ := List.exists_cons_of_length_eq_add_one hplaces
    obtain ⟨c, cs, rfl⟩ := List.exists_cons_of_length_eq_add_one hcenters
    obtain ⟨nodes, hnodes, hm, ha, hc⟩ :=
      ih (Nat.succ.inj hplaces) (Nat.succ.inj hcenters)
    have hnode : node m a c = .ok ⟨m, a, c, m.category⟩ := by simp [node]
    refine ⟨⟨m, a, c, m.category⟩ :: nodes, ?_, ?_, ?_, ?_⟩
    · rw [nodesOf, hnode]
      dsimp only
      rw [hnodes]
    · rw [List.map_cons, hm]
    · rw [List.map_cons, ha]
    · rw [List.map_cons, hc]

/-- The box around all hexagons of a layout. -/
def box (layout : Layout K) : Bounds K :=
  Bounds.ofHexagons layout.hexSize (layout.nodes.map (·.center))

theorem length_places (count : Nat) : (places count : List (Axial K)).length = count := by
  rw [places, List.length_map, (Spiral.isInitial_positions count).2]

theorem centers_eq (surface : Viewport K) (size : K) (places : List (Axial K)) :
    centers surface size places = (places.map (Axial.project size)).map
      (·.shift (offset surface (Bounds.ofHexagons size (places.map (Axial.project size))))) := rfl

/-- **Modules are laid out at the places of the spiral**, centred, at the size that is chosen. -/
theorem ofModules_spec {modules : List Module} (hne : modules ≠ []) (surface : Viewport K)
    (padding : K) :
    ∃ layout, ofModules modules surface padding = .ok layout ∧
      layout.hexSize = HexSize.choose (places modules.length) surface padding ∧
      layout.nodes.map (·.module) = modules ∧
      layout.nodes.map (·.place) = places modules.length ∧
      layout.nodes.map (·.center) = centers surface layout.hexSize (places modules.length) := by
  have hplaces := length_places (K := K) modules.length
  generalize hsize : HexSize.choose (places modules.length) surface padding = size
  have hcenters : (centers surface size (places modules.length)).length = modules.length := by
    rw [centers_eq, List.length_map, List.length_map, hplaces]
  obtain ⟨nodes, hnodes, hm, ha, hc⟩ := nodesOf_spec hplaces hcenters
  refine ⟨⟨nodes, linksOf nodes, size, surface⟩, ?_, rfl, hm, ha, hc⟩
  cases modules with
  | nil => exact absurd rfl hne
  | cons m ms =>
    rw [ofModules, hsize, hnodes]

/-! ## Centres -/

variable [IsStrictOrderedRing K]

omit [LinearOrder K] [RootThree K] [IsStrictOrderedRing K] in
theorem distSq_shift (p q d : Point K) :
    Point.distSq (p.shift d) (q.shift d) = Point.distSq p q := by
  simp only [Point.distSq, Point.shift]
  ring

/-- **Any two centres are apart** by at least the spacing of neighbours. -/
theorem centers_pairwise (surface : Viewport K) (size : K) (count : Nat) :
    (centers surface size (places count)).Pairwise fun a b =>
      3 * (size * (118 / 100)) ^ 2 ≤ Point.distSq a b := by
  have hdistinct : (Spiral.positions count).Pairwise (· ≠ ·) :=
    (Spiral.isInitial_positions count).1.nodup
  rw [centers_eq, List.pairwise_map, List.pairwise_map, places, List.pairwise_map]
  refine hdistinct.imp ?_
  intro a b hab
  rw [distSq_shift]
  exact Axial.le_distSq_project size hab

omit [RootThree K] in
/-- The spacing is greater than the circles around two hexagons reach. -/
theorem reach_lt_spacing {size : K} (h : 0 < size) :
    (2 * size) ^ 2 < 3 * (size * (118 / 100)) ^ 2 := by
  have hsq : 0 < size ^ 2 := by positivity
  nlinarith

/-! ## The box around all hexagons -/

section Box

variable {surface : Viewport K} {size : K} {places : List (Axial K)}

/-- The box around the hexagons at the centres is the one at the places, moved. -/
theorem box_eq (hne : places ≠ []) :
    Bounds.ofHexagons size (centers surface size places) =
      (Bounds.ofHexagons size (places.map (Axial.project size))).shift
        (offset surface (Bounds.ofHexagons size (places.map (Axial.project size)))) := by
  rw [centers_eq, Bounds.ofHexagons_shift size _ (by simpa using hne)]

variable (surface size) in
/-- **The box has its middle in the middle of the surface.** -/
theorem box_centered (hne : places ≠ []) :
    (Bounds.ofHexagons size (centers surface size places)).minX +
        (Bounds.ofHexagons size (centers surface size places)).maxX = surface.width ∧
      (Bounds.ofHexagons size (centers surface size places)).minY +
        (Bounds.ofHexagons size (centers surface size places)).maxY = surface.height := by
  rw [box_eq hne]
  simp only [Bounds.shift, offset, Scalar.ofInt_eq, Int.cast_ofNat]
  constructor <;> ring

/-- **Where the hexagons fit they keep the padding.** -/
theorem within_padding {padding : K} (hne : places ≠ [])
    (hfits : HexSize.fits places surface padding size = true) :
    (Bounds.ofHexagons size (centers surface size places)).Within
      ⟨padding, padding, surface.width - padding, surface.height - padding⟩ := by
  obtain ⟨hwidth, hheight⟩ := HexSize.fits_iff.mp hfits
  rw [box_eq hne]
  simp only [Bounds.width, Bounds.height] at hwidth hheight
  -- the box is as wide as before, so that half of what is left stands on either side
  refine ⟨?_, ?_, ?_, ?_⟩ <;>
    simp only [Bounds.shift, offset, Scalar.ofInt_eq, Int.cast_ofNat] <;> linarith

end Box

/-- **The hexagons of a layout are apart from each other and in the middle of their surface.**  For
every list of modules, surface and padding there is a layout, with a node for each module.  The
centres of two nodes are at least the spacing apart, which is more than the circles around two
hexagons reach, so that no point lies in two hexagons; and no two places of the grid are put at one
point.  The least box that holds all hexagons has its middle in the middle of the surface.  Where
the hexagons fit, each of them keeps the padding. -/
theorem hexagons_apart_and_framed {modules : List Module} (hne : modules ≠ [])
    (surface : Viewport K) (padding : K) :
    ∃ layout, ofModules modules surface padding = .ok layout ∧
      layout.nodes.map (·.module) = modules ∧
      layout.hexSize = HexSize.choose (places modules.length) surface padding ∧
      (18 ≤ layout.hexSize ∧
        (2 * layout.hexSize) ^ 2 < 3 * (layout.hexSize * (118 / 100)) ^ 2 ∧
        (layout.nodes.Pairwise fun a b =>
          3 * (layout.hexSize * (118 / 100)) ^ 2 ≤ Point.distSq a.center b.center ∧
            ∀ p, ¬ (Hexagon.Covers layout.hexSize a.center p ∧
              Hexagon.Covers layout.hexSize b.center p)) ∧
        ∀ a b : Axial Int, a ≠ b →
          a.cast.project layout.hexSize ≠ b.cast.project layout.hexSize) ∧
      ((∀ b, layout.box.Within b ↔
          ∀ n ∈ layout.nodes, (Bounds.ofHexagon layout.hexSize n.center).Within b) ∧
        (layout.box.minX + layout.box.maxX) / 2 = surface.width / 2 ∧
        (layout.box.minY + layout.box.maxY) / 2 = surface.height / 2) ∧
      (HexSize.fits (places modules.length) surface padding layout.hexSize = true →
        ∀ n ∈ layout.nodes, (Bounds.ofHexagon layout.hexSize n.center).Within
          ⟨padding, padding, surface.width - padding, surface.height - padding⟩) := by
  obtain ⟨layout, hlayout, hsize, hmodules, -, hcenters⟩ := ofModules_spec hne surface padding
  have hlow : 18 ≤ layout.hexSize := by
    rw [hsize]
    exact (HexSize.choose_bounds _ surface padding).1
  have hreach := reach_lt_spacing (show 0 < layout.hexSize by linarith)
  have hplaces : (places modules.length : List (Axial K)) ≠ [] := by
    rw [← List.length_pos_iff, length_places]
    exact List.length_pos_iff.mpr hne
  have hbox : layout.box =
      Bounds.ofHexagons layout.hexSize
        (centers surface layout.hexSize (places modules.length)) := by
    rw [box, hcenters]
  have hleast : ∀ b, layout.box.Within b ↔
      ∀ n ∈ layout.nodes, (Bounds.ofHexagon layout.hexSize n.center).Within b := by
    intro b
    have hne : layout.nodes.map (·.center) ≠ [] := by
      rw [hcenters, centers_eq]
      simpa using hplaces
    rw [box, Bounds.ofHexagons_within_iff hne, List.forall_mem_map]
  refine ⟨layout, hlayout, hmodules, hsize, ⟨hlow, hreach, ?_, ?_⟩, ⟨hleast, ?_⟩, ?_⟩
  · have hpairwise := centers_pairwise surface layout.hexSize modules.length
    rw [← hcenters, List.pairwise_map] at hpairwise
    refine hpairwise.imp ?_
    intro a b hab
    exact ⟨hab, Hexagon.not_covers_both (lt_of_lt_of_le hreach hab)⟩
  · intro a b hab heq
    have hapart := Axial.le_distSq_project layout.hexSize hab
    rw [heq, Point.distSq, sub_self, sub_self] at hapart
    have hpos : 0 < (layout.hexSize * (118 / 100)) ^ 2 := by positivity
    linarith
  · obtain ⟨hx, hy⟩ := box_centered surface layout.hexSize hplaces
    rw [hbox, hx, hy]
    exact ⟨rfl, rfl⟩
  · intro hfits
    rw [← hleast, hbox]
    exact within_padding hplaces hfits

/-- Seven modules, for the origin and the ring around it. -/
def sevenModules : List Module :=
  [Text.ofString "a", "b", "c", "d", "e", "f", "g"].map fun name => ⟨name, true, false, []⟩

/-- Seven hexagons fit into a page at the greatest size. -/
theorem fits_seven :
    HexSize.fits (places 7 : List (Axial ℝ)) ⟨1200, 800⟩ 80 56 = true := by
  have hpositions : Spiral.positions 7 =
      [⟨0, 0⟩, ⟨1, 0⟩, ⟨1, -1⟩, ⟨0, 1⟩, ⟨0, -1⟩, ⟨-1, 0⟩, ⟨-1, 1⟩] := by cbv
  have hroot := Scalar.sqrtThree_mul_self (K := ℝ)
  have hpos := Scalar.sqrtThree_pos (K := ℝ)
  have htwo : (Scalar.sqrtThree : ℝ) < 2 := by nlinarith
  refine HexSize.fits_of_within (b := ⟨-240, -160, 240, 160⟩) ?_ ?_ ?_ ?_
  · simp [places, hpositions]
  · rw [places, hpositions]
    simp only [List.map_cons, List.map_nil, List.forall_mem_cons]
    refine ⟨?_, ?_, ?_, ?_, ?_, ?_, ?_, by simp⟩ <;>
    · constructor <;>
        norm_num [Bounds.ofHexagon, Bounds.halfWidth, Axial.project, Axial.projectWith, Axial.cast,
          gapFraction] <;> linarith
  · norm_num [Bounds.width]
  · norm_num [Bounds.height]

/-- Seven modules on a page: the hexagons have the greatest size, are apart, and stay away from the
edges. -/
theorem seven_hexagons_apart_and_framed :
    sevenModules ≠ [] ∧
      ∃ layout : Layout ℝ, ofModules sevenModules ⟨1200, 800⟩ 80 = .ok layout ∧
        layout.nodes.length = 7 ∧
        (layout.nodes.Pairwise fun a b => ∀ p, ¬ (Hexagon.Covers layout.hexSize a.center p ∧
          Hexagon.Covers layout.hexSize b.center p)) ∧
        layout.box.minX + layout.box.maxX = 1200 ∧
        ∀ n ∈ layout.nodes,
          (Bounds.ofHexagon layout.hexSize n.center).Within ⟨80, 80, 1120, 720⟩ := by
  have hne : sevenModules ≠ [] := by decide
  obtain ⟨layout, hlayout, hmodules, hsize, ⟨-, -, hpairwise, -⟩, ⟨-, hmiddle, -⟩, hpadding⟩ :=
    hexagons_apart_and_framed hne (⟨1200, 800⟩ : Viewport ℝ) 80
  refine ⟨hne, layout, hlayout, ?_, hpairwise.imp And.right, ?_, ?_⟩
  · rw [← List.length_map, hmodules]
    decide
  · linarith
  · have hfits :
        HexSize.fits (places sevenModules.length) ⟨1200, 800⟩ 80 layout.hexSize = true := by
      rw [hsize]
      exact (HexSize.choose_of_fits fits_seven).symm ▸ fits_seven
    have hwithin := hpadding hfits
    norm_num at hwithin
    exact hwithin

end Honeycomb.Layout
