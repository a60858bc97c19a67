import Honeycomb.Proofs.Decimal.Reading

/-!
# The shortest decimal of a float belongs to it

* `attracts_iff` — the comparisons on whole numbers decide which decimals belong to a float.
* `nearestOn_eq_none_iff` — the point that is taken from a grid belongs to the float, and there is
  none only if no point of the grid does.
* `shortest_spec` — the search ends on the coarsest grid that has a point: what it finds belongs to
  the float, and nothing on a coarser grid does.
* `nearestFloat_shortest` — reading the shortest decimal of a float gives the float.
-/

set_option autoImplicit false

namespace Honeycomb

/-- The number that a decimal is. -/
def Decimal.value (d : Decimal) : ℚ := d.coefficient * 10 ^ d.exponent

theorem zpow_eq_div (a : ℚ) (i : Int) : a ^ i = a ^ i.toNat / a ^ (-i).toNat := by
  rcases Int.le_total 0 i with hi | hi
  · obtain ⟨k, rfl⟩ := Int.eq_ofNat_of_zero_le hi
    rw [show (-(k : Int)).toNat = 0 by omega]
    simp
  · obtain ⟨k, rfl⟩ : ∃ k : Nat, i = -k := ⟨i.natAbs, by omega⟩
    rw [show (-(k : Int)).toNat = 0 by omega, zpow_neg]
    simp

namespace Binary

variable {b : Binary}

/-! ## Comparing -/

theorem compare_scaled {m n : Nat} {p q k : ℚ} (hk : 0 < k) (hm : m = p * k) (hn : n = q * k) :
    compare m n = compare p q := by
  rcases lt_trichotomy p q with h | h | h
  · have hlt : (m : ℚ) < n := by
      rw [hm, hn]
      exact mul_lt_mul_of_pos_right h hk
    rw [compare_lt_iff_lt.mpr h, compare_lt_iff_lt.mpr (by exact_mod_cast hlt)]
  · have heq : (m : ℚ) = n := by rw [hm, hn, h]
    rw [compare_eq_iff_eq.mpr h, compare_eq_iff_eq.mpr (by exact_mod_cast heq)]
  · have hgt : (n : ℚ) < m := by
      rw [hm, hn]
      exact mul_lt_mul_of_pos_right h hk
    rw [compare_gt_iff_gt.mpr h, compare_gt_iff_gt.mpr (by exact_mod_cast hgt)]

theorem compareQuarters_eq (b : Binary) (c : Nat) (i : Int) (n : Nat) :
    b.compareQuarters c i n = compare (c * 10 ^ i : ℚ) (n * b.quarter) := by
  have hten := zpow_eq_div 10 i
  have htwo := zpow_eq_div 2 (b.exponent - 2)
  unfold compareQuarters quarter
  simp only [Nat.pow_eq]
  refine compare_scaled (k := 10 ^ (-i).toNat * 2 ^ (-(b.exponent - 2)).toNat) (by positivity) ?_ ?_
  · rw [hten]
    push_cast
    field_simp
  · rw [htwo]
    push_cast
    field_simp

/-- **The decimals that belong to a float.** -/
theorem attracts_iff {c : Nat} {i : Int} : b.attracts c i = true ↔ b.Rounds (c * 10 ^ i) := by
  simp only [attracts, compareQuarters_eq, Bool.and_eq_true, Bool.or_eq_true, beq_iff_eq,
    compare_lt_iff_lt, compare_gt_iff_gt, compare_eq_iff_eq]
  generalize (c : ℚ) * 10 ^ i = q
  show ((q > b.low ∨ b.significand % 2 = 0 ∧ q = b.low) ∧
    (q < b.high ∨ b.significand % 2 = 0 ∧ q = b.high)) ↔ b.Rounds q
  constructor
  · rintro ⟨hlow, hhigh⟩
    refine ⟨?_, ?_, ?_⟩
    · rcases hlow with h | ⟨-, h⟩ <;> linarith
    · rcases hhigh with h | ⟨-, h⟩ <;> linarith
    · rintro (h | h)
      · rcases hlow with hlow | ⟨heven, -⟩
        · linarith
        · exact heven
      · rcases hhigh with hhigh | ⟨heven, -⟩
        · linarith
        · exact heven
  · rintro ⟨hlow, hhigh, heven⟩
    constructor
    · rcases lt_or_eq_of_le hlow with h | h
      · exact .inl h
      · exact .inr ⟨heven (.inl h.symm), h.symm⟩
    · rcases lt_or_eq_of_le hhigh with h | h
      · exact .inl h
      · exact .inr ⟨heven (.inr h), h⟩

/-- Between two numbers that belong to a float all numbers do. -/
theorem Rounds.between {p q r : ℚ} (hp : b.Rounds p) (hr : b.Rounds r) (hpq : p ≤ q)
    (hqr : q ≤ r) : b.Rounds q := by
  refine ⟨le_trans hp.above hpq, le_trans hqr hr.below, ?_⟩
  rintro (h | h)
  · exact hp.even (.inl (le_antisymm (h ▸ hpq) hp.above))
  · exact hr.even (.inr (le_antisymm hr.below (h ▸ hqr)))

theorem Rounds.pos {q : ℚ} (hpos : 0 < b.significand) (h : b.Rounds q) : 0 < q := by
  have hquarter := b.quarter_pos
  have hm : (1 : ℚ) ≤ b.significand := by exact_mod_cast hpos
  have hlow := b.le_low
  have habove := h.above
  nlinarith

/-! ## One grid -/

/-- The float lies between two neighbours on the grid. -/
theorem floorOn_spec (b : Binary) (i : Int) :
    b.floorOn i * 10 ^ i ≤ b.value ∧ b.value < ((b.floorOn i + 1 : Nat) : ℚ) * 10 ^ i := by
  have hten := zpow_eq_div 10 i
  have htwo := zpow_eq_div 2 b.exponent
  have hden : 0 < 10 ^ i.toNat * 2 ^ (-b.exponent).toNat := by positivity
  unfold floorOn value
  simp only [Nat.pow_eq]
  generalize hA : b.significand * 2 ^ b.exponent.toNat * 10 ^ (-i).toNat = A
  generalize hB : 10 ^ i.toNat * 2 ^ (-b.exponent).toNat = B at hden
  have hvalue : (b.significand : ℚ) * 2 ^ b.exponent = A / B * 10 ^ i := by
    rw [hten, htwo, ← hA, ← hB]
    push_cast
    field_simp
  have hpow : (0 : ℚ) < 10 ^ i := by positivity
  have hdenq : (0 : ℚ) < B := by exact_mod_cast hden
  rw [hvalue]
  constructor
  · refine mul_le_mul_of_nonneg_right ?_ hpow.le
    rw [le_div_iff₀ hdenq]
    exact_mod_cast Nat.div_mul_le_self A B
  · refine mul_lt_mul_of_pos_right ?_ hpow
    rw [div_lt_iff₀ hdenq]
    exact_mod_cast Nat.lt_mul_of_div_lt (Nat.lt_succ_self _) hden

theorem attracts_of_nearestOn {i : Int} {c : Nat} (h : b.nearestOn i = some c) :
    b.attracts c i = true := by
  simp only [nearestOn] at h
  split at h
  · rename_i hbelow _
    cases h
    exact hbelow
  · rename_i _ habove
    cases h
    exact habove
  · cases h
  · rename_i hbelow habove
    split at h
    · cases h
      exact hbelow
    · cases h
      exact habove
    · split at h
      · cases h
        exact hbelow
      · cases h
        exact habove

/-- **A grid is passed over only if none of its points belongs to the float.** -/
theorem nearestOn_eq_none_iff (hb : b.Canonical) {i : Int} :
    b.nearestOn i = none ↔ ∀ c, b.attracts c i = false := by
  constructor
  · intro h c
    obtain ⟨hbelow, habove⟩ : b.attracts (b.floorOn i) i = false ∧
        b.attracts (b.floorOn i + 1) i = false := by
      simp only [nearestOn] at h
      split at h
      · cases h
      · cases h
      · rename_i hbelow habove
        exact ⟨hbelow, habove⟩
      · split at h
        · cases h
        · cases h
        · split at h <;> cases h
    obtain ⟨hle, hlt⟩ := b.floorOn_spec i
    have hpow : (0 : ℚ) < 10 ^ i := by positivity
    by_contra hc
    have hrounds := attracts_iff.mp (by simpa using hc)
    -- the neighbour on that side lies between the point and the float
    rcases Nat.lt_or_ge (b.floorOn i) c with hside | hside
    · have hcast : ((b.floorOn i + 1 : Nat) : ℚ) ≤ c := by exact_mod_cast hside
      have := attracts_iff.mpr (hb.rounds_value.between hrounds hlt.le
        (mul_le_mul_of_nonneg_right hcast hpow.le))
      rw [habove] at this
      cases this
    · have hcast : (c : ℚ) ≤ b.floorOn i := by exact_mod_cast hside
      have := attracts_iff.mpr (hrounds.between hb.rounds_value
        (mul_le_mul_of_nonneg_right hcast hpow.le) hle)
      rw [hbelow] at this
      cases this
  · intro h
    cases hn : b.nearestOn i with
    | none => rfl
    | some c =>
      have := attracts_of_nearestOn hn
      rw [h c] at this
      cases this

/-! ## The search -/

/-- What the coarsest grid is for a number with so many bits before the point. -/
theorem coarsest_bounds (hb : b.Canonical) :
    28 * (b.significand.log2 + 1 + b.exponent) ≤ 93 * b.coarsest ∧
      59 * (b.significand.log2 + 1 + b.exponent) ≤ 196 * b.coarsest ∧
      93 * (b.coarsest - 23) ≤ 28 * (b.exponent - 2) ∧
      196 * (b.coarsest - 23) ≤ 59 * (b.exponent - 2) := by
  have hlog := (Nat.log2_lt hb.positive.ne').mpr hb.short
  have hleast := hb.least
  have hgreatest := hb.greatest
  simp only [leastExponent, greatestExponent] at hleast hgreatest
  simp only [coarsest]
  rw [Int.fdiv_eq_ediv_of_nonneg _ (by norm_num)]
  omega

theorem high_lt_coarsest (hb : b.Canonical) : b.high < 10 ^ b.coarsest := by
  obtain ⟨h, h', -, -⟩ := coarsest_bounds hb
  refine lt_of_lt_of_le ?_ (two_zpow_le_ten_zpow h h')
  have hm : (b.significand : ℚ) + 1 ≤ 2 ^ (b.significand.log2 + 1) := by
    exact_mod_cast Nat.lt_log2_self
  have hquarter := b.quarter_pos
  rw [high_eq, zpow_add₀ two_ne_zero, two_zpow_exponent]
  rw [show (2 : ℚ) ^ ((b.significand.log2 : ℤ) + 1) = 2 ^ (b.significand.log2 + 1) by
    rw [← zpow_natCast]; rfl]
  nlinarith

theorem not_rounds_of_coarsest_le (hb : b.Canonical) {i : Int} (hi : b.coarsest ≤ i) (c : Nat) :
    ¬ b.Rounds (c * 10 ^ i) := by
  intro h
  have hpos := h.pos hb.positive
  have hpow : (10 : ℚ) ^ b.coarsest ≤ 10 ^ i := zpow_le_zpow_right₀ (by norm_num) hi
  have hten : (0 : ℚ) < 10 ^ i := by positivity
  have hc : (1 : ℚ) ≤ c := by
    have : (0 : ℚ) < c := (mul_pos_iff_of_pos_right hten).mp hpos
    exact_mod_cast this
  have hbelow := h.below
  have hhigh := high_lt_coarsest hb
  nlinarith

/-- A grid finer than a quarter of the last place has a point that belongs to the float. -/
theorem nearestOn_ne_none_of_fine (hb : b.Canonical) {i : Int} (hi : (10 : ℚ) ^ i ≤ b.quarter) :
    b.nearestOn i ≠ none := by
  intro h
  have hnone := (nearestOn_eq_none_iff hb).mp h (b.floorOn i + 1)
  obtain ⟨hle, hlt⟩ := b.floorOn_spec i
  have hnear : ((b.floorOn i + 1 : Nat) : ℚ) * 10 ^ i ≤ b.value + b.quarter := by
    push_cast
    linarith
  have hquarter := b.quarter_pos
  have hhigh : b.value + 2 * b.quarter = b.high := by
    rw [value_eq, high_eq]
    ring
  have hends : b.Rounds (b.value + b.quarter) := by
    refine ⟨by linarith [hb.rounds_value.above], by linarith, ?_⟩
    rintro (h | h)
    · linarith [hb.rounds_value.above]
    · linarith
  have := attracts_iff.mpr (hb.rounds_value.between hends hlt.le hnear)
  rw [hnone] at this
  cases this

/-- If one of the grids has a point, the search ends on the coarsest such grid. -/
theorem searchFrom_spec (b : Binary) (tries : Nat) (i : Int) {j : Int} (hlow : i - tries < j)
    (hhigh : j ≤ i) (hj : b.nearestOn j ≠ none) :
    b.nearestOn (b.searchFrom tries i).exponent = some (b.searchFrom tries i).coefficient ∧
      i - tries < (b.searchFrom tries i).exponent ∧
      ∀ k, (b.searchFrom tries i).exponent < k → k ≤ i → b.nearestOn k = none := by
  induction tries generalizing i with
  | zero => omega
  | succ tries ih =>
    unfold searchFrom
    cases hn : b.nearestOn i with
    | some c =>
      refine ⟨hn, ?_, ?_⟩
      · dsimp only
        omega
      · intro k hk hki
        dsimp only at hk
        omega
    | none =>
      have hne : j ≠ i := by
        rintro rfl
        exact hj hn
      obtain ⟨hfound, hbound, hfirst⟩ := ih (i - 1) (by omega) (by omega)
      refine ⟨hfound, by dsimp only; omega, ?_⟩
      intro k hk hki
      by_cases hkeq : k = i
      · rw [hkeq]
        exact hn
      · exact hfirst k hk (by omega)

/-- **The shortest decimal belongs to the float, and no decimal on a coarser grid does.** -/
theorem shortest_spec (hb : b.Canonical) :
    b.Rounds b.shortest.value ∧ 0 < b.shortest.coefficient ∧ b.shortest.coefficient < 10 ^ 23 ∧
      ∀ (c : Nat) (k : Int), b.shortest.exponent < k → ¬ b.Rounds (c * 10 ^ k) := by
  have hfine : b.nearestOn (b.coarsest - 23) ≠ none := by
    obtain ⟨-, -, h, h'⟩ := coarsest_bounds hb
    exact nearestOn_ne_none_of_fine hb (ten_zpow_le_two_zpow h h')
  obtain ⟨hfound, hbound, hfirst⟩ :=
    searchFrom_spec b 24 b.coarsest (j := b.coarsest - 23) (by norm_num) (by omega) hfine
  change b.nearestOn b.shortest.exponent = some b.shortest.coefficient at hfound
  change b.coarsest - 24 < b.shortest.exponent at hbound
  change ∀ k, b.shortest.exponent < k → k ≤ b.coarsest → b.nearestOn k = none at hfirst
  generalize b.shortest = d at hfound hbound hfirst
  have hrounds : b.Rounds d.value := attracts_iff.mp (attracts_of_nearestOn hfound)
  have hten : (0 : ℚ) < 10 ^ d.exponent := by positivity
  refine ⟨hrounds, ?_, ?_, ?_⟩
  · have : (0 : ℚ) < d.coefficient :=
      (mul_pos_iff_of_pos_right hten).mp (hrounds.pos hb.positive)
    exact_mod_cast this
  · have hhigh := high_lt_coarsest hb
    have hpow : (10 : ℚ) ^ b.coarsest ≤ 10 ^ (23 + d.exponent) :=
      zpow_le_zpow_right₀ (by norm_num) (by omega)
    rw [zpow_add₀ (by norm_num)] at hpow
    have hlt : (d.coefficient : ℚ) * 10 ^ d.exponent < 10 ^ (23 : ℤ) * 10 ^ d.exponent :=
      lt_of_le_of_lt hrounds.below (lt_of_lt_of_le hhigh hpow)
    have := lt_of_mul_lt_mul_right hlt hten.le
    exact_mod_cast this
  · intro c k hk hr
    rcases Int.le_total b.coarsest k with hle | hle
    · exact not_rounds_of_coarsest_le hb hle c hr
    · have := (nearestOn_eq_none_iff hb).mp (hfirst k hk hle) c
      rw [attracts_iff.mpr hr] at this
      cases this

/-- **Reading the shortest decimal of a float gives the float.** -/
theorem nearestFloat_shortest (hb : b.Canonical) :
    nearestFloat b.shortest.coefficient b.shortest.exponent = b.float := by
  obtain ⟨hrounds, hpos, -, -⟩ := shortest_spec hb
  exact nearestFloat_of_rounds hb.normal hpos hrounds

/-! ## Whole numbers -/

/-- Whether a float is a natural number. -/
def Whole (b : Binary) : Prop := ∃ n : Nat, b.value = n

/-- Where floats are close enough, a natural number belongs to no other float than itself. -/
theorem value_eq_of_rounds_nat (he : b.exponent ≤ 0) {n : Nat} (h : b.Rounds n) : b.value = n := by
  obtain ⟨k, hk⟩ : ∃ k : Nat, b.exponent = -k := ⟨b.exponent.natAbs, by omega⟩
  have hu := b.quarter_pos
  have hpow := b.two_zpow_exponent
  have hinv : (2 : ℚ) ^ k * 2 ^ b.exponent = 1 := by
    rw [hk, zpow_neg, zpow_natCast]
    exact mul_inv_cancel₀ (by positivity)
  have hn : (n : ℚ) = ((n * 2 ^ k : Nat) : ℚ) * (4 * b.quarter) := by
    rw [← hpow]
    push_cast
    rw [mul_assoc, hinv, mul_one]
  have hlow := le_trans b.le_low h.above
  have hhigh := h.below
  rw [high_eq] at hhigh
  rw [hn] at hlow hhigh
  generalize n * 2 ^ k = t at hn hlow hhigh
  -- both are multiples of the last place, and less than one place apart
  have hlt : (t : ℚ) < b.significand + 1 := by nlinarith
  have hgt : (b.significand : ℚ) < t + 1 := by nlinarith
  have hlt : t < b.significand + 1 := by exact_mod_cast hlt
  have hgt : b.significand < t + 1 := by exact_mod_cast hgt
  rw [value_eq, hn, show t = b.significand by omega]
  ring

theorem whole_of_exponent_nonneg (he : 0 ≤ b.exponent) : b.Whole := by
  obtain ⟨k, hk⟩ := Int.eq_ofNat_of_zero_le he
  refine ⟨b.significand * 2 ^ k, ?_⟩
  rw [value, hk]
  push_cast
  rfl

theorem shortest_exponent_nonneg_iff (hb : b.Canonical) :
    0 ≤ b.shortest.exponent ↔ b.Whole := by
  obtain ⟨hrounds, -, -, hcoarsest⟩ := shortest_spec hb
  constructor
  · intro h
    rcases Int.lt_or_le b.exponent 0 with he | he
    · obtain ⟨k, hk⟩ := Int.eq_ofNat_of_zero_le h
      refine ⟨b.shortest.coefficient * 10 ^ k, value_eq_of_rounds_nat he.le ?_⟩
      rw [Decimal.value, hk, zpow_natCast] at hrounds
      push_cast
      exact hrounds
    · exact whole_of_exponent_nonneg he
  · rintro ⟨n, hn⟩
    by_contra h
    refine hcoarsest n 0 (by omega) ?_
    rw [zpow_zero, mul_one, ← hn]
    exact hb.rounds_value

theorem value_lt_of_exponent_nonpos (hb : b.Normal) (he : b.exponent ≤ 0) :
    b.value < 2 ^ 53 := by
  have hshort : (b.significand : ℚ) < 2 ^ 53 := by exact_mod_cast hb.short
  have hpow : (2 : ℚ) ^ b.exponent ≤ 2 ^ (0 : ℤ) := zpow_le_zpow_right₀ (by norm_num) he
  have hpos : (0 : ℚ) < 2 ^ b.exponent := by positivity
  rw [zpow_zero] at hpow
  unfold value
  nlinarith

theorem le_value_of_exponent_pos (hb : b.Normal) (he : 0 < b.exponent) :
    (2 : ℚ) ^ 53 ≤ b.value := by
  have hfull := hb.full.resolve_right (by simp only [leastExponent]; omega)
  have hm : (2 : ℚ) ^ 52 ≤ b.significand := by exact_mod_cast hfull
  have hquarter : (2 : ℚ) ^ (-1 : ℤ) ≤ b.quarter := zpow_le_zpow_right₀ (by norm_num) (by omega)
  norm_num only at hquarter
  rw [value_eq]
  nlinarith

/-- The greatest float of last place one. -/
def safest : Binary := ⟨2 ^ 53 - 1, 0⟩

theorem canonical_safest : safest.Canonical := by
  refine ⟨?_, ?_, ?_, ?_, .inl ?_⟩ <;> simp [safest, leastExponent, greatestExponent]

/-- No safe number belongs to a float beyond the safe ones. -/
theorem lt_of_rounds_of_exponent_pos (hb : b.Normal) (he : 0 < b.exponent) {n : Nat}
    (h : b.Rounds n) : 2 ^ 53 - 1 < n := by
  have hvalue := le_value_of_exponent_pos hb he
  have hsafest : safest.value = 2 ^ 53 - 1 := by norm_num [safest, value]
  have hle := high_le_low canonical_safest.normal hb (by rw [hsafest]; linarith)
  have hhigh : safest.value < safest.high := by
    have := safest.quarter_pos
    rw [value_eq, high_eq]
    linarith
  have habove := h.above
  have hlt : (2 : ℚ) ^ 53 - 1 < n := by linarith
  have hlt : ((2 ^ 53 - 1 : Nat) : ℚ) < n := by
    norm_num only at hlt ⊢
    exact hlt
  exact_mod_cast hlt

end Binary

end Honeycomb
