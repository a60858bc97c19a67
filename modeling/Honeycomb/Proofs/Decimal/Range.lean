import Mathlib.Data.Int.Log
import Mathlib.Data.Rat.Floor
import Honeycomb.Proofs.Decimal.Reading

/-!
# The range of floats

* `Binary.exists_rounds` — every positive number belongs to a normal fraction.
* `Binary.overflow` — halfway from the greatest float to the next power of two.
* `isFinite_nearestFloat_iff` — a decimal is read as a finite float exactly if it is below that.
-/

set_option autoImplicit false

namespace Honeycomb

/-- Every number that is not negative has a nearest natural number, the even one of two. -/
theorem exists_nearest {v : ℚ} (hv : 0 ≤ v) :
    ∃ k : Nat, (k : ℚ) - 1 / 2 ≤ v ∧ v ≤ k + 1 / 2 ∧
      (v = k - 1 / 2 ∨ v = k + 1 / 2 → k % 2 = 0) := by
  have hle := Nat.floor_le hv
  have hlt := Nat.lt_floor_add_one v
  generalize Nat.floor v = f at hle hlt
  rcases lt_trichotomy v (f + 1 / 2) with h | h | h
  · refine ⟨f, by linarith, h.le, ?_⟩
    rintro (heq | heq) <;> linarith
  · rcases Nat.mod_two_eq_zero_or_one f with heven | hodd
    · exact ⟨f, by linarith, h.le, fun _ => heven⟩
    · exact ⟨f + 1, by push_cast; linarith, by push_cast; linarith, fun _ => by omega⟩
  · refine ⟨f + 1, by push_cast; linarith, by push_cast; linarith, ?_⟩
    push_cast
    rintro (heq | heq) <;> linarith

namespace Binary

variable {b : Binary} {q : ℚ}

/-! ## Every number is rounded to something -/

theorem low_eq_of_zero (h : b.significand = 0) : b.low = 0 := by
  have hquarters : b.lowQuarters = 0 := by
    unfold lowQuarters
    split <;> omega
  rw [low, hquarters, Nat.cast_zero, zero_mul]

/-- A number belongs to the fraction whose significand is nearest to it, unless it lies where the
fractions are closer. -/
theorem Rounds.of_nearest {v : ℚ} (hv : 0 ≤ v) (hlow : (b.significand : ℚ) - 1 / 2 ≤ v)
    (hhigh : v ≤ b.significand + 1 / 2)
    (heven : v = b.significand - 1 / 2 ∨ v = b.significand + 1 / 2 → b.significand % 2 = 0)
    (hnarrow : b.narrowBelow = true → (b.significand : ℚ) ≤ v) :
    b.Rounds (v * 2 ^ b.exponent) := by
  have hu := b.quarter_pos
  rw [b.two_zpow_exponent]
  have hbelow : v * (4 * b.quarter) ≤ b.high := by
    rw [high_eq]
    nlinarith
  by_cases hn : b.narrowBelow = true
  · have hv := hnarrow hn
    have hm := (narrowBelow_iff.mp hn).1
    refine ⟨?_, hbelow, fun _ => by rw [hm]; norm_num⟩
    rw [low_eq_of_narrow hn]
    nlinarith
  rcases Nat.eq_zero_or_pos b.significand with h0 | hpos
  · refine ⟨?_, hbelow, fun _ => by rw [h0]⟩
    rw [low_eq_of_zero h0]
    positivity
  · refine ⟨?_, hbelow, ?_⟩
    · rw [low_eq_of_wide hpos hn]
      nlinarith
    · rw [low_eq_of_wide hpos hn, high_eq]
      rintro (h | h)
      · exact heven (.inl (mul_right_cancel₀ hu.ne' (by linarith)))
      · exact heven (.inr (mul_right_cancel₀ hu.ne' (by linarith)))

/-- A number is cut down to 53 bits, or to the least exponent. -/
theorem exists_places (hq : 0 < q) :
    ∃ (e : Int) (v : ℚ), q = v * 2 ^ e ∧ leastExponent ≤ e ∧ 0 ≤ v ∧ v < 2 ^ 53 ∧
      (e = leastExponent ∨ 2 ^ 52 ≤ v) := by
  have hlow := Int.zpow_log_le_self (b := 2) (by norm_num) hq
  have hhigh := Int.lt_zpow_succ_log_self (b := 2) (by norm_num) q
  push_cast at hlow hhigh
  generalize Int.log 2 q = l at hlow hhigh
  have hsplit : ∀ (k : Nat) (e : Int), (2 : ℚ) ^ ((k : Int) + e) = 2 ^ k * 2 ^ e := by
    intro k e
    rw [zpow_add₀ two_ne_zero, zpow_natCast]
  generalize he : max (l - 52) leastExponent = e
  have hpow : (0 : ℚ) < 2 ^ e := by positivity
  refine ⟨e, q / 2 ^ e, (div_mul_cancel₀ q hpow.ne').symm, by omega, by positivity, ?_, ?_⟩
  · rw [div_lt_iff₀ hpow, ← hsplit]
    exact lt_of_lt_of_le hhigh (zpow_le_zpow_right₀ (by norm_num) (by push_cast; omega))
  · by_cases hleast : e = leastExponent
    · exact .inl hleast
    · right
      rw [le_div_iff₀ hpow, ← hsplit]
      exact le_trans (zpow_le_zpow_right₀ (by norm_num) (by push_cast; omega)) hlow

/-- Where rounding fills the significand up, the next place is a power of two. -/
theorem rounds_filled {e : Int} {v : ℚ} (hleast : leastExponent ≤ e) (hlow : 2 ^ 53 - 1 / 2 ≤ v)
    (hhigh : v ≤ 2 ^ 53 + 1 / 2) :
    (⟨2 ^ 52, e + 1⟩ : Binary).Normal ∧ (⟨2 ^ 52, e + 1⟩ : Binary).Rounds (v * 2 ^ e) := by
  refine ⟨⟨by norm_num, by dsimp only; omega, .inl le_rfl⟩, ?_⟩
  have hnarrow : (⟨2 ^ 52, e + 1⟩ : Binary).narrowBelow = true :=
    narrowBelow_iff.mpr ⟨rfl, by dsimp only; omega⟩
  have hquarter : (⟨2 ^ 52, e + 1⟩ : Binary).quarter = 2 ^ e / 2 := by
    rw [quarter, show e + 1 - 2 = e - 1 by omega, zpow_sub_one₀ two_ne_zero]
    ring
  have hpow : (0 : ℚ) < 2 ^ e := by positivity
  refine ⟨?_, ?_, fun _ => by norm_num⟩
  · rw [low_eq_of_narrow hnarrow, hquarter]
    push_cast
    nlinarith
  · rw [high_eq, hquarter]
    push_cast
    nlinarith

/-- **Every positive number is rounded to a normal fraction.** -/
theorem exists_rounds (hq : 0 < q) : ∃ b : Binary, b.Normal ∧ b.Rounds q := by
  obtain ⟨e, v, rfl, hleast, hpos, hshort, hfull⟩ := exists_places hq
  obtain ⟨k, hlow, hhigh, heven⟩ := exists_nearest hpos
  have hk : k ≤ 2 ^ 53 := by
    have hlt : (k : ℚ) < ((2 ^ 53 + 1 : Nat) : ℚ) := by
      push_cast
      linarith
    have hlt : k < 2 ^ 53 + 1 := by exact_mod_cast hlt
    omega
  rcases Nat.lt_or_eq_of_le hk with hk | rfl
  · have hcast : 2 ^ 52 ≤ v → 2 ^ 52 ≤ k := by
      intro h
      have hlt : ((2 ^ 52 : Nat) : ℚ) < k + 1 := by
        push_cast
        linarith
      have hlt : 2 ^ 52 < k + 1 := by exact_mod_cast hlt
      omega
    refine ⟨⟨k, e⟩, ⟨hk, hleast, ?_⟩, Rounds.of_nearest hpos hlow hhigh heven ?_⟩
    · exact (hfull.imp_right hcast).symm
    · intro hnarrow
      obtain ⟨hm, hexp⟩ := narrowBelow_iff.mp hnarrow
      rcases hfull with he | hv
      · exact absurd hexp (by rw [he]; exact Int.lt_irrefl _)
      · dsimp only at hm ⊢
        rw [hm]
        push_cast
        exact hv
  · push_cast at hlow hhigh
    exact ⟨_, rounds_filled hleast hlow hhigh⟩

/-! ## The numbers that are rounded to floats -/

/-- Halfway from the greatest float, `(2 ^ 53 - 1) * 2 ^ 971`, to the next power of two. -/
def overflow : Nat := (2 ^ 54 - 1) * 2 ^ 970

theorem overflow_eq : (overflow : ℚ) = (2 ^ 54 - 1) * 2 ^ (970 : ℤ) := by
  have hcast : ∀ e : Nat, (((2 ^ 54 - 1) * 2 ^ e : Nat) : ℚ) = (2 ^ 54 - 1) * 2 ^ (e : ℤ) := by
    intro e
    push_cast
    norm_num
  exact hcast 970

/-- What is rounded to a float is below the overflow. -/
theorem lt_overflow (hb : b.Normal) (hr : b.Rounds q) (he : b.exponent ≤ greatestExponent) :
    q < overflow := by
  have hu := b.quarter_pos
  have hpos : (0 : ℚ) < 2 ^ (970 : ℤ) := by positivity
  have hquarter : b.quarter ≤ 2 ^ (970 : ℤ) / 2 := by
    simp only [greatestExponent] at he
    have hle : b.quarter ≤ 2 ^ (970 - 1 : ℤ) := zpow_le_zpow_right₀ (by norm_num) (by omega)
    rwa [zpow_sub_one₀ two_ne_zero] at hle
  rw [overflow_eq]
  generalize (2 : ℚ) ^ (970 : ℤ) = t at hpos hquarter ⊢
  have hhigh : b.high ≤ (4 * b.significand + 2) * (t / 2) := by
    rw [high_eq]
    exact mul_le_mul_of_nonneg_left hquarter (by positivity)
  have hshort := hb.short
  rcases Nat.mod_two_eq_zero_or_one b.significand with heven | hodd
  · have hm : (b.significand : ℚ) + 2 ≤ ((2 ^ 53 : Nat) : ℚ) := by
      exact_mod_cast (by omega : b.significand + 2 ≤ 2 ^ 53)
    push_cast at hm
    have hbelow := hr.below
    nlinarith
  · -- the border itself is rounded to the even neighbour
    have hm : (b.significand : ℚ) + 1 ≤ ((2 ^ 53 : Nat) : ℚ) := by exact_mod_cast hshort
    push_cast at hm
    have hbelow : q < b.high := by
      refine lt_of_le_of_ne hr.below fun heq => ?_
      have := hr.even (.inr heq)
      omega
    nlinarith

/-- What is rounded beyond the floats is not. -/
theorem overflow_le (hb : b.Normal) (hr : b.Rounds q) (he : greatestExponent < b.exponent) :
    (overflow : ℚ) ≤ q := by
  simp only [greatestExponent] at he
  have hquarter : 2 ^ (970 : ℤ) ≤ b.quarter := zpow_le_zpow_right₀ (by norm_num) (by omega)
  have hfull : 2 ^ 52 ≤ b.significand :=
    hb.full.resolve_right (by simp only [leastExponent]; omega)
  have hpos : (0 : ℚ) < 2 ^ (970 : ℤ) := by positivity
  refine le_trans ?_ hr.above
  rw [overflow_eq]
  generalize (2 : ℚ) ^ (970 : ℤ) = t at hpos hquarter ⊢
  by_cases hn : b.narrowBelow = true
  · rw [low_eq_of_narrow hn, (narrowBelow_iff.mp hn).1]
    push_cast
    nlinarith
  · have hne : b.significand ≠ 2 ^ 52 := fun hm =>
      hn (narrowBelow_iff.mpr ⟨hm, by simp only [leastExponent]; omega⟩)
    have hm : ((2 ^ 52 : Nat) : ℚ) + 1 ≤ b.significand := by
      exact_mod_cast (by omega : 2 ^ 52 + 1 ≤ b.significand)
    push_cast at hm
    have hlow := b.le_low
    nlinarith

/-- **The numbers below the overflow are those that are rounded to floats.** -/
theorem exponent_le_iff (hb : b.Normal) (hr : b.Rounds q) :
    b.exponent ≤ greatestExponent ↔ q < overflow := by
  constructor
  · exact lt_overflow hb hr
  · intro hq
    by_contra he
    exact absurd hq (not_lt.mpr (overflow_le hb hr (by omega)))

theorem Normal.isFinite_float_iff (hb : b.Normal) :
    b.float.isFinite = true ↔ b.exponent ≤ greatestExponent := by
  rcases Nat.eq_zero_or_pos b.significand with h0 | hpos
  · rw [float_of_zero h0]
    refine iff_of_true (by decide +kernel) ?_
    rcases hb.full with h | h
    · omega
    · rw [h]
      decide
  by_cases he : b.exponent ≤ greatestExponent
  · refine iff_of_true ?_ he
    show b.float.toModel.unpack.isFinite = true
    rw [(hb.canonical hpos he).unpack_float, unpacked_eq hpos]
    rfl
  · rw [float_of_beyond hpos (by omega)]
    exact iff_of_false (by decide +kernel) he

/-- Nothing is rounded to the zero with a sign. -/
theorem Normal.float_ne_neg_zero (hb : b.Normal) : b.float ≠ -0 := by
  rcases Nat.eq_zero_or_pos b.significand with h0 | hpos
  · rw [float_of_zero h0]
    decide +kernel
  by_cases he : b.exponent ≤ greatestExponent
  · intro h
    have hunpack := (hb.canonical hpos he).unpack_float
    rw [h, unpacked_eq hpos] at hunpack
    cases hunpack
  · rw [float_of_beyond hpos (by omega)]
    decide +kernel

end Binary

/-! ## Decimals -/

/-- A decimal is read as what its number is rounded to. -/
theorem nearestFloat_spec {c : Nat} (hc : 0 < c) (i : Int) :
    ∃ b : Binary, b.Normal ∧ b.Rounds (c * 10 ^ i) ∧ nearestFloat c i = b.float := by
  have hcast : (0 : ℚ) < c := by exact_mod_cast hc
  obtain ⟨b, hb, hr⟩ := Binary.exists_rounds (q := c * 10 ^ i) (by positivity)
  exact ⟨b, hb, hr, nearestFloat_of_rounds hb hc hr⟩

/-- **A decimal is read as a finite float exactly if it is below the overflow.** -/
theorem isFinite_nearestFloat_iff (c : Nat) (i : Int) :
    (nearestFloat c i).isFinite = true ↔ (c : ℚ) * 10 ^ i < Binary.overflow := by
  rcases Nat.eq_zero_or_pos c with rfl | hc
  · have hpos : 0 < Binary.overflow := by decide +kernel
    refine iff_of_true (show Float.isFinite 0 = true by decide +kernel) ?_
    rw [Nat.cast_zero, zero_mul]
    exact_mod_cast hpos
  · obtain ⟨b, hb, hr, hread⟩ := nearestFloat_spec hc i
    rw [hread, hb.isFinite_float_iff, Binary.exponent_le_iff hb hr]

theorem nearestFloat_ne_neg_zero (c : Nat) (i : Int) : nearestFloat c i ≠ -0 := by
  rcases Nat.eq_zero_or_pos c with rfl | hc
  · show (0 : Float) ≠ -0
    decide +kernel
  · obtain ⟨b, hb, -, hread⟩ := nearestFloat_spec hc i
    rw [hread]
    exact hb.float_ne_neg_zero

end Honeycomb
