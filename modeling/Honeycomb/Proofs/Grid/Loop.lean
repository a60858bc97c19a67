import Honeycomb.Proofs.Decimal.Whole
import Honeycomb.Proofs.Grid.Ring

/-!
# The walk around a ring is a loop

* `Neighbour` — one step in one of the six directions leads from a place to another.
* `isChain_walk` — a walk goes from each place to a neighbour, and ends at one where the next side
  would begin.
* `walk_cast` — over floats a walk comes to the same places, as long as they are whole numbers
  that floats hold.
* `ring_walked_once` — so the walk around a ring comes to each of its places once and back to the
  first one.
-/

set_option autoImplicit false

namespace Honeycomb.Axial

/-- A step in one of the directions leads from `a` to `b`. -/
def Neighbour (a b : Axial Int) : Prop := ∃ d ∈ directions, b = a.step d

/-! ## Walks -/

theorem exists_side_append (d : Axial Int) (n : Nat) (a : Axial Int) (rest : List (Axial Int)) :
    ∃ more, side d n a ++ along d n a :: rest = a :: more := by
  cases n with
  | zero => exact ⟨rest, rfl⟩
  | succ n => exact ⟨_, rfl⟩

/-- A side goes from neighbour to neighbour, up to the place behind it. -/
theorem isChain_side {d : Axial Int} (hd : d ∈ directions) (n : Nat) (a : Axial Int)
    {rest : List (Axial Int)} (h : (along d n a :: rest).IsChain Neighbour) :
    (side d n a ++ along d n a :: rest).IsChain Neighbour := by
  induction n generalizing a with
  | zero => exact h
  | succ n ih =>
    have htail := ih (a.step d) h
    obtain ⟨more, hmore⟩ := exists_side_append d n (a.step d) rest
    show (a :: (side d n (a.step d) ++ along d n (a.step d) :: rest)).IsChain Neighbour
    rw [hmore] at htail ⊢
    exact List.isChain_cons_cons.mpr ⟨⟨d, hd, rfl⟩, htail⟩

/-- Where a walk ends. -/
def arrive (n : Nat) (ds : List (Axial Int)) (a : Axial Int) : Axial Int :=
  ds.foldl (fun a d => along d n a) a

/-- **A walk goes from neighbour to neighbour**, up to the place where it ends. -/
theorem isChain_walk (n : Nat) {ds : List (Axial Int)} (hds : ∀ d ∈ ds, d ∈ directions)
    (a : Axial Int) :
    (∃ more, walk n ds a ++ [arrive n ds a] = a :: more) ∧
      (walk n ds a ++ [arrive n ds a]).IsChain Neighbour := by
  induction ds generalizing a with
  | nil => exact ⟨⟨[], rfl⟩, List.isChain_singleton _⟩
  | cons d ds ih =>
    obtain ⟨⟨more, hmore⟩, hchain⟩ :=
      ih (fun d' hd' => hds d' (List.mem_cons_of_mem _ hd')) (along d n a)
    have hsplit : walk n (d :: ds) a ++ [arrive n (d :: ds) a] =
        side d n a ++ along d n a :: more := by
      rw [← hmore, ← List.append_assoc]
      rfl
    rw [hmore] at hchain
    rw [hsplit]
    exact ⟨exists_side_append d n a more, isChain_side (hds d List.mem_cons_self) n a hchain⟩

theorem arrive_around (k : Nat) :
    arrive k directions (corner startDirection (k : Int)) = corner startDirection (k : Int) := by
  simp [arrive, directions, along_eq, corner, startDirection]

/-- **The ring is a loop**: its places are neighbours one after the other, and so are the last and
the first one. -/
theorem isChain_ring {k : Nat} (hk : k ≠ 0) :
    (ring k).IsChain Neighbour ∧
      ∃ first last, (ring k).head? = some first ∧ (ring k).getLast? = some last ∧
        Neighbour last first := by
  have hne : ring k ≠ [] := List.ne_nil_of_length_pos (by rw [length_ring hk]; omega)
  obtain ⟨⟨more, hmore⟩, hchain⟩ :=
    isChain_walk k (fun d (hd : d ∈ directions) => hd) (corner startDirection (k : Int))
  have hring : walk k directions (corner startDirection (k : Int)) = ring k := (if_neg hk).symm
  rw [arrive_around, hring] at hmore hchain
  obtain ⟨hwalk, -, hclose⟩ := List.isChain_append.mp hchain
  refine ⟨hwalk, corner startDirection (k : Int), (ring k).getLast hne, ?_,
    List.getLast?_eq_some_getLast hne, ?_⟩
  · rw [← List.head?_append_of_ne_nil _ hne, hmore]
    rfl
  · exact hclose _ (List.getLast?_eq_some_getLast hne) _ rfl

/-! ## The same walk over floats -/

/-- Both coordinates are whole numbers that floats hold. -/
def Small (a : Axial Int) : Prop := a.q.natAbs < 2 ^ 53 ∧ a.r.natAbs < 2 ^ 53

theorem step_cast {d a : Axial Int} (hd : Small d) (ha : Small a) (hstep : Small (a.step d)) :
    (a.cast : Axial Float).step d = (a.step d).cast := by
  show (⟨_, _⟩ : Axial Float) = ⟨_, _⟩
  rw [Axial.mk.injEq]
  exact ⟨ofInt_add ha.1 hd.1 hstep.1, ofInt_add ha.2 hd.2 hstep.2⟩

/-- A direction changes each coordinate by one at most. -/
theorem unit_of_mem_directions {d : Axial Int} (hd : d ∈ directions) :
    (d.q = -1 ∨ d.q = 0 ∨ d.q = 1) ∧ (d.r = -1 ∨ d.r = 0 ∨ d.r = 1) := by
  simp only [directions, List.mem_cons, List.not_mem_nil, or_false] at hd
  rcases hd with rfl | rfl | rfl | rfl | rfl | rfl <;> decide

theorem small_of_mem_directions {d : Axial Int} (hd : d ∈ directions) : Small d := by
  obtain ⟨hq, hr⟩ := unit_of_mem_directions hd
  exact ⟨by omega, by omega⟩

theorem natAbs_step_lt {x u : Int} {n bound : Nat} (hu : u = -1 ∨ u = 0 ∨ u = 1)
    (hx : x.natAbs < bound) (hend : (x + (n + 1 : Nat) * u).natAbs < bound) :
    (x + u).natAbs < bound := by
  rcases hu with rfl | rfl | rfl <;> omega

/-- Between two places that floats hold, floats hold every place. -/
theorem small_step {d a : Axial Int} (hd : d ∈ directions) {n : Nat} (ha : Small a)
    (hend : Small (along d (n + 1) a)) : Small (a.step d) := by
  rw [along_eq] at hend
  obtain ⟨hq, hr⟩ := unit_of_mem_directions hd
  exact ⟨natAbs_step_lt hq ha.1 hend.1, natAbs_step_lt hr ha.2 hend.2⟩

theorem side_cast {d : Axial Int} (hd : d ∈ directions) (n : Nat) {a : Axial Int} (ha : Small a)
    (hend : Small (along d n a)) :
    side d n (a.cast : Axial Float) = (side d n a).map cast ∧
      along d n (a.cast : Axial Float) = (along d n a).cast := by
  induction n generalizing a with
  | zero => exact ⟨rfl, rfl⟩
  | succ n ih =>
    have hnext := small_step hd ha hend
    obtain ⟨hside, halong⟩ := ih hnext hend
    rw [side, along, step_cast (small_of_mem_directions hd) ha hnext, hside, halong]
    exact ⟨rfl, rfl⟩

/-- A walk over floats comes to the same places, if floats hold every corner of it. -/
theorem walk_cast {ds : List (Axial Int)} (hds : ∀ d ∈ ds, d ∈ directions) (n : Nat)
    {a : Axial Int} (hcorners : ∀ c ∈ ds.scanl (fun a d => along d n a) a, Small c) :
    walk n ds (a.cast : Axial Float) = (walk n ds a).map cast := by
  induction ds generalizing a with
  | nil => rfl
  | cons d ds ih =>
    rw [List.scanl_cons, List.forall_mem_cons] at hcorners
    obtain ⟨ha, hrest⟩ := hcorners
    have hend : Small (along d n a) := hrest _ (by cases ds <;> simp)
    obtain ⟨hside, halong⟩ := side_cast (hds d List.mem_cons_self) n ha hend
    rw [walk, walk, hside, halong, List.map_append,
      ih (fun d' hd' => hds d' (List.mem_cons_of_mem _ hd')) hrest]

theorem stepsBelow_of_unpack {x : Float} {m : Nat} {e : Int} {h : 0 < m}
    (hx : x.toModel.unpack = .finite .positive m e h) :
    stepsBelow x = (m * 2 ^ e.toNat + 2 ^ (-e).toNat - 1) / 2 ^ (-e).toNat := by
  unfold stepsBelow
  generalize x.toModel.unpack = parts at hx
  subst hx
  rfl

/-- A float that is a natural number has so many natural numbers below it. -/
theorem stepsBelow_ofInt {k : Nat} (hk : k ≠ 0) (hlt : k < 2 ^ 53) :
    stepsBelow (Float.ofInt k) = k := by
  have hsame : Float.ofInt k = Float.ofNat k := rfl
  rw [hsame, stepsBelow_of_unpack (unpack_ofNat (Nat.pos_of_ne_zero hk) hlt)]
  have hlog := (Nat.log2_lt hk).mpr hlt
  have hright : k.log2 - 52 = 0 := by omega
  have hup : ((k.log2 : Int) - 52).toNat = 0 := by omega
  have hdown : (-((k.log2 : Int) - 52)).toNat = 52 - k.log2 := by omega
  simp only [Binary.ofNat, hright, hup, hdown, Nat.shiftLeft_eq, Nat.shiftRight_zero, pow_zero,
    mul_one]
  have hunit : 0 < 2 ^ (52 - k.log2) := by positivity
  generalize 2 ^ (52 - k.log2) = unit at hunit
  rw [Nat.add_sub_assoc hunit, Nat.mul_comm, Nat.mul_add_div hunit,
    Nat.div_eq_of_lt (by omega), Nat.add_zero]

theorem corner_cast {k : Nat} (hk : k ≠ 0) (hlt : k < 2 ^ 53) :
    corner startDirection (Float.ofInt k) = (corner startDirection (k : Int)).cast := by
  show (⟨Float.ofInt (-1) * Float.ofInt k, Float.ofInt 1 * Float.ofInt k⟩ : Axial Float) =
    ⟨Float.ofInt (-1 * k), Float.ofInt (1 * k)⟩
  have hsmall : (k : Int).natAbs < 2 ^ 53 := hlt
  rw [ofInt_mul (by decide) hsmall (by omega) (by omega),
    ofInt_mul (by decide) hsmall (by omega) (by omega)]

/-- **The ring at a radius that is a natural number** is the ring of grid places. -/
theorem ringAt_ofInt {k : Nat} (hk : k ≠ 0) (hlt : k < 2 ^ 53) :
    ringAt (Float.ofInt k) = (ring k).map cast := by
  have hzero : (Float.ofInt k == 0) = false := ofInt_beq_zero (Int.natCast_ne_zero.mpr hk) hlt
  rw [ringAt, hzero, if_neg Bool.false_ne_true, ring, if_neg hk, around, around,
    stepsBelow_ofInt hk hlt, corner_cast hk hlt]
  apply walk_cast (fun d hd => hd)
  simpa [directions, along_eq, corner, startDirection, Small] using hlt

/-- **The walk around a ring comes to each of its places once.**  The ring `k`, outside the origin,
has `6 * k` places, all different, and they are all the places at distance `k`.  Each one is a
neighbour of the one before, and the first is a neighbour of the last.  Over floats the walk is the
same, as long as they hold its radius exactly. -/
theorem ring_walked_once (k : Nat) (hk : 1 ≤ k) :
    (ring k).length = 6 * k ∧ (ring k).Nodup ∧ (∀ a, a ∈ ring k ↔ a.distance = k) ∧
      (ring k).IsChain Neighbour ∧
      (∃ first last, (ring k).head? = some first ∧ (ring k).getLast? = some last ∧
        Neighbour last first) ∧
      (k < 2 ^ 53 → ringAt (Float.ofInt k) = (ring k).map cast) := by
  have hne : k ≠ 0 := Nat.one_le_iff_ne_zero.mp hk
  obtain ⟨hchain, hclosed⟩ := isChain_ring hne
  exact ⟨length_ring hne, nodup_ring k, fun _ => mem_ring_iff, hchain, hclosed, ringAt_ofInt hne⟩

theorem ring_seven_walked_once :
    1 ≤ 7 ∧ (ring 7).length = 42 ∧ (ring 7).Nodup ∧ (⟨-3, 7⟩ : Axial Int) ∈ ring 7 ∧
      (ring 7).IsChain Neighbour ∧
      (∃ first last, (ring 7).head? = some first ∧ (ring 7).getLast? = some last ∧
        Neighbour last first) ∧
      ringAt (Float.ofInt 7) = (ring 7).map cast := by
  obtain ⟨hlength, hnodup, hmem, hchain, hclosed, hfloat⟩ := ring_walked_once 7 (by decide)
  exact ⟨by decide, hlength, hnodup, (hmem _).mpr (by decide), hchain, hclosed,
    hfloat (by norm_num)⟩

end Honeycomb.Axial
