import Mathlib.Algebra.Order.Field.Power
import Mathlib.Tactic.FieldSimp
import Mathlib.Tactic.Linarith
import Mathlib.Tactic.Ring
import Honeycomb.Proofs.Decimal.Packing

/-!
# Rounding to the nearest float

What happens to a positive rational number that is cut down to a float's significand.

* `Represents` — what a significand with its two further bits says about a number;
  `Represents.shiftRight` halves the number, `Represents.roundedMantissa` rounds it.
* `Binary.Rounds` — the numbers that belong to a float: those from halfway to the float below to
  halfway to the float above, ends included for an even significand.
* `Binary.high_le_middle`, `Binary.middle_le_low` — how far apart normal fractions are at least;
  `Binary.high_le_low`, `Binary.eq_of_value_eq` — no number belongs to two of them inside, and no
  two of them are equal.
* `roundWithAccuracy_of_rounds` — a number that belongs to a normal fraction is rounded to it.
-/

set_option autoImplicit false

namespace Honeycomb

open Float.Model (UnpackedFloat Format totalExponent)
open Float.Model.UnpackedFloat

/-! ## Significands with two further bits -/

/-- Where the rest of a number lies between zero and one, as an accuracy tells it. -/
def Places (rest : ℚ) : Accuracy → Prop
  | .exact => rest = 0
  | .inexact .lt => 0 < rest ∧ rest < 1 / 2
  | .inexact .eq => rest = 1 / 2
  | .inexact .gt => 1 / 2 < rest ∧ rest < 1

/-- The number that a significand with its further bits stands for. -/
def Represents (em : ExtendedMantissa) (v : ℚ) : Prop := Places (v - em.mantissa) em.accuracy

theorem Places.bounds {rest : ℚ} {acc : Accuracy} (h : Places rest acc) :
    0 ≤ rest ∧ rest < 1 := by
  rcases acc with _ | (_ | _ | _) <;> simp only [Places] at h <;> constructor <;> linarith

theorem represents_of_places {n : Nat} {acc : Accuracy} {v : ℚ} (h : Places (v - n) acc) :
    Represents (.ofMantissaAndAccuracy n acc) v := by
  rcases acc with _ | (_ | _ | _) <;> exact h

namespace Represents

variable {em : ExtendedMantissa} {v : ℚ}

theorem shiftRightOne (h : Represents em v) : Represents em.shiftRightOne (v / 2) := by
  obtain ⟨m, round, sticky⟩ := em
  have hm : (m : ℚ) = ((m % 2 : Nat) : ℚ) + 2 * ((m / 2 : Nat) : ℚ) := by
    exact_mod_cast (Nat.mod_add_div m 2).symm
  rcases Nat.mod_two_eq_zero_or_one m with hbit | hbit <;> rw [hbit] at hm <;>
    cases round <;> cases sticky <;>
    simp [Represents, Places, ExtendedMantissa.shiftRightOne, ExtendedMantissa.accuracy, hbit,
      hm] at h ⊢ <;>
    first | linarith | (constructor <;> linarith)

theorem shiftRight (h : Represents em v) (k : Nat) : Represents (em >>> k) (v / 2 ^ k) := by
  show Represents (k.repeat ExtendedMantissa.shiftRightOne em) _
  induction k with
  | zero => simpa [Nat.repeat] using h
  | succ k ih =>
    rw [Nat.repeat, pow_succ, ← div_div]
    exact ih.shiftRightOne

/-- **Rounding goes to the nearest number**, and to the even one of two. -/
theorem roundedMantissa (h : Represents em v) {k : Nat} (low : k - 1 / 2 ≤ v)
    (high : v ≤ k + 1 / 2) (even : v = k - 1 / 2 ∨ v = k + 1 / 2 → k % 2 = 0) :
    em.roundedMantissa = k := by
  obtain ⟨m, round, sticky⟩ := em
  -- the neighbours of the number are the significand and the next one
  have near : ∀ {a b : Nat}, (a : ℚ) < b + 1 → a ≤ b := by
    intro a b hab
    have : a < b + 1 := by exact_mod_cast hab
    omega
  simp only [ExtendedMantissa.roundedMantissa]
  cases round <;> cases sticky <;>
    simp only [Represents, Places, ExtendedMantissa.accuracy] at h ⊢ <;>
    simp only [Accuracy.roundToNearestEven]
  · exact Nat.le_antisymm (near (by linarith)) (near (by linarith))
  · exact Nat.le_antisymm (near (by linarith)) (near (by linarith))
  · have hle : m ≤ k := near (by linarith)
    have hge : k ≤ m + 1 := near (by push_cast; linarith)
    rcases Nat.lt_or_eq_of_le hle with hlt | rfl
    · have hk : k = m + 1 := by omega
      have hv : v = k - 1 / 2 := by rw [hk]; push_cast; linarith
      have := even (.inl hv)
      omega
    · have := even (.inr (by linarith))
      omega
  · exact Nat.le_antisymm (near (by push_cast; linarith)) (near (by push_cast; linarith))

end Represents

/-! ## The numbers that belong to a float -/

namespace Binary

/-- The number that a binary fraction is. -/
def value (b : Binary) : ℚ := b.significand * 2 ^ b.exponent

/-- A quarter of the last place. -/
def quarter (b : Binary) : ℚ := 2 ^ (b.exponent - 2)

/-- Halfway to the float below. -/
def low (b : Binary) : ℚ := b.lowQuarters * b.quarter

/-- Halfway to the float above. -/
def high (b : Binary) : ℚ := b.highQuarters * b.quarter

/-- Whether a number belongs to a float. -/
structure Rounds (b : Binary) (q : ℚ) : Prop where
  above : b.low ≤ q
  below : q ≤ b.high
  even : q = b.low ∨ q = b.high → b.significand % 2 = 0

variable {b : Binary}

theorem quarter_pos (b : Binary) : 0 < b.quarter := by
  unfold quarter
  positivity

theorem two_zpow_exponent (b : Binary) : (2 : ℚ) ^ b.exponent = 4 * b.quarter := by
  rw [quarter, zpow_sub₀ two_ne_zero]
  norm_num
  ring

theorem value_eq (b : Binary) : b.value = 4 * b.significand * b.quarter := by
  rw [value, two_zpow_exponent]
  ring

theorem high_eq (b : Binary) : b.high = (4 * b.significand + 2) * b.quarter := by
  simp [high, highQuarters]

theorem narrowBelow_iff : b.narrowBelow = true ↔
    b.significand = 2 ^ 52 ∧ leastExponent < b.exponent := by
  simp [narrowBelow]

theorem low_eq_of_narrow (h : b.narrowBelow = true) :
    b.low = (4 * b.significand - 1) * b.quarter := by
  have hm := (narrowBelow_iff.mp h).1
  rw [low, lowQuarters, if_pos h, Nat.cast_sub (by rw [hm]; norm_num)]
  push_cast
  ring

theorem low_eq_of_wide (hpos : 0 < b.significand) (h : b.narrowBelow ≠ true) :
    b.low = (4 * b.significand - 2) * b.quarter := by
  rw [low, lowQuarters, if_neg h, Nat.cast_sub (by omega)]
  push_cast
  ring

/-- The lower end is half a place away at most. -/
theorem le_low (b : Binary) : (4 * b.significand - 2) * b.quarter ≤ b.low := by
  have hnat : 4 * b.significand ≤ b.lowQuarters + 2 := by
    unfold lowQuarters
    split <;> omega
  have hcast : (4 : ℚ) * b.significand ≤ b.lowQuarters + 2 := by exact_mod_cast hnat
  exact mul_le_mul_of_nonneg_right (by linarith) b.quarter_pos.le

/-- The lower end is a quarter of a place away at least. -/
theorem low_le (hpos : 0 < b.significand) : b.low ≤ (4 * b.significand - 1) * b.quarter := by
  have hq := b.quarter_pos
  by_cases h : b.narrowBelow = true
  · exact (low_eq_of_narrow h).le
  · rw [low_eq_of_wide hpos h]
    nlinarith

/-- A float of a greater exponent is greater, and twice as far from its neighbours at least. -/
theorem quarter_le_of_lt {a b : Binary} (h : a.exponent < b.exponent) :
    2 * a.quarter ≤ b.quarter := by
  have hle : (2 : ℚ) ^ (a.exponent - 2 + 1) ≤ 2 ^ (b.exponent - 2) :=
    zpow_le_zpow_right₀ (by norm_num) (by omega)
  rw [zpow_add_one₀ two_ne_zero] at hle
  unfold quarter
  linarith

theorem value_lt_of_exponent_lt {a b : Binary} (ha : a.Normal) (hb : b.Normal)
    (h : a.exponent < b.exponent) : a.value < b.value := by
  have hquarter := quarter_le_of_lt h
  have hu := a.quarter_pos
  have hleast := ha.least
  have hfull : (2 : ℚ) ^ 52 ≤ b.significand := by
    exact_mod_cast hb.full.resolve_right (by omega)
  have hshort : (a.significand : ℚ) < 2 ^ 53 := by exact_mod_cast ha.short
  rw [value_eq, value_eq]
  nlinarith

/-- Of two fractions with one exponent the greater one has the greater significand. -/
theorem significand_lt_of_value_lt {a b : Binary} (h : a.value < b.value)
    (hexp : a.exponent = b.exponent) :
    (a.significand : ℚ) + 1 ≤ b.significand ∧ b.quarter = a.quarter := by
  have hquarter : b.quarter = a.quarter := by rw [quarter, quarter, hexp]
  have hu := a.quarter_pos
  rw [value_eq, value_eq, hquarter] at h
  have hlt : (a.significand : ℚ) < b.significand := by nlinarith
  have hlt : a.significand < b.significand := by exact_mod_cast hlt
  exact ⟨by exact_mod_cast hlt, hquarter⟩

/-- A greater fraction is at least one place away. -/
theorem high_le_middle {a b : Binary} (ha : a.Normal) (hb : b.Normal) (h : a.value < b.value) :
    2 * a.high ≤ a.value + b.value := by
  have hu := a.quarter_pos
  rw [high_eq, value_eq a]
  rcases Int.lt_trichotomy a.exponent b.exponent with hlt | heq | hgt
  · have hquarter := quarter_le_of_lt hlt
    have hleast := ha.least
    have hfull : (2 : ℚ) ^ 52 ≤ b.significand := by
      exact_mod_cast hb.full.resolve_right (by omega)
    have hshort : (a.significand : ℚ) + 1 ≤ 2 ^ 53 := by exact_mod_cast ha.short
    rw [value_eq]
    nlinarith
  · obtain ⟨hle, hquarter⟩ := significand_lt_of_value_lt h heq
    rw [value_eq, hquarter]
    nlinarith
  · exact absurd (value_lt_of_exponent_lt hb ha hgt) (not_lt.mpr h.le)

/-- A smaller fraction is at least as far away as the one below. -/
theorem middle_le_low {a b : Binary} (ha : a.Normal) (hb : b.Normal) (h : a.value < b.value) :
    a.value + b.value ≤ 2 * b.low := by
  have hu := a.quarter_pos
  rw [value_eq a, value_eq b]
  rcases Int.lt_trichotomy a.exponent b.exponent with hlt | heq | hgt
  · have hquarter := quarter_le_of_lt hlt
    have hleast := ha.least
    have hfull := hb.full.resolve_right (by omega)
    have hshort : (a.significand : ℚ) + 1 ≤ 2 ^ 53 := by exact_mod_cast ha.short
    by_cases hn : b.narrowBelow = true
    · have hm : (b.significand : ℚ) = 2 ^ 52 := by exact_mod_cast (narrowBelow_iff.mp hn).1
      rw [low_eq_of_narrow hn, hm]
      nlinarith
    · have hne : b.significand ≠ 2 ^ 52 := fun hm => hn (narrowBelow_iff.mpr ⟨hm, by omega⟩)
      have hm : (2 : ℚ) ^ 52 + 1 ≤ b.significand := by
        have : 2 ^ 52 + 1 ≤ b.significand := by omega
        exact_mod_cast this
      rw [low_eq_of_wide (by omega) hn]
      nlinarith
  · obtain ⟨hle, hquarter⟩ := significand_lt_of_value_lt h heq
    have hlow := b.le_low
    rw [hquarter] at hlow ⊢
    nlinarith
  · exact absurd (value_lt_of_exponent_lt hb ha hgt) (not_lt.mpr h.le)

/-- **The numbers that belong to different floats do not mix.** -/
theorem high_le_low {a b : Binary} (ha : a.Normal) (hb : b.Normal) (h : a.value < b.value) :
    a.high ≤ b.low := by
  have hhigh := high_le_middle ha hb h
  have hlow := middle_le_low ha hb h
  linarith

theorem eq_of_value_eq {a b : Binary} (ha : a.Normal) (hb : b.Normal)
    (h : a.value = b.value) : a = b := by
  rcases Int.lt_trichotomy a.exponent b.exponent with hlt | heq | hgt
  · exact absurd h (value_lt_of_exponent_lt ha hb hlt).ne
  · obtain ⟨m, e⟩ := a
    obtain ⟨n, f⟩ := b
    dsimp only at heq
    subst heq
    have hpow : (2 : ℚ) ^ e ≠ 0 := by positivity
    have hm : (m : ℚ) = n := mul_right_cancel₀ hpow h
    rw [show m = n by exact_mod_cast hm]
  · exact absurd h (value_lt_of_exponent_lt hb ha hgt).ne'

end Binary

/-! ## Rounding as a float does -/

/-- The exponent at which a number is cut down, in place of a significand and its exponent. -/
theorem targetExponent_eq (n : Nat) (x : Int) :
    Format.binary64.targetExponent (totalExponent n x) = max (n.log2 + x - 52) (-1074) := by
  have hmin : Format.binary64.minExponent = -1074 := by decide
  have hbits : (Format.binary64.mantissaBits : Int) = 53 := by decide
  rw [Format.targetExponent, hmin, hbits, totalExponent]
  congr 1
  ring

/-- Cutting a number down to its target exponent keeps track of all of it. -/
theorem represents_shift {n : Nat} {x : Int} {acc : Accuracy} {q : ℚ}
    (hq : Places (q / 2 ^ x - n) acc)
    (hx : x ≤ Format.binary64.targetExponent (totalExponent n x)) :
    ∃ em, shiftToTargetExponent .binary64 n x acc =
        (em, Format.binary64.targetExponent (totalExponent n x)) ∧
      Represents em (q / 2 ^ Format.binary64.targetExponent (totalExponent n x)) := by
  generalize ht : Format.binary64.targetExponent (totalExponent n x) = t at hx ⊢
  refine ⟨ExtendedMantissa.ofMantissaAndAccuracy n acc >>> (t - x).toNat, ?_, ?_⟩
  · rw [shiftToTargetExponent, ht, shiftToExponent]
    congr 1
    omega
  · have h := (represents_of_places hq).shiftRight (t - x).toNat
    have hpow : (2 : ℚ) ^ t = 2 ^ x * 2 ^ (t - x).toNat := by
      rw [← zpow_natCast, ← zpow_add₀ two_ne_zero]
      congr 1
      omega
    rwa [hpow, ← div_div]

theorem target_of_normal {b : Binary} (hb : b.Normal) :
    Format.binary64.targetExponent (totalExponent b.significand b.exponent) = b.exponent := by
  obtain ⟨hshort, hleast, hfull⟩ := hb
  have hlog : b.significand.log2 < 53 := by
    rcases Nat.eq_zero_or_pos b.significand with h0 | hpos
    · rw [h0, Nat.log2_zero]
      norm_num
    · exact (Nat.log2_lt (by omega)).mpr hshort
  rw [targetExponent_eq]
  simp only [Binary.leastExponent] at hleast hfull
  rcases hfull with hfull | hfull
  · have := (Nat.le_log2 (by omega)).mpr hfull
    omega
  · omega

/-- A normal fraction is not cut down. -/
theorem shift_of_normal {b : Binary} (hb : b.Normal) :
    shiftToTargetExponent .binary64 b.significand b.exponent .exact =
      (⟨b.significand, false, false⟩, b.exponent) := by
  rw [shiftToTargetExponent, target_of_normal hb, shiftToExponent, Int.sub_self]
  simp only [Int.toNat_zero, Int.natCast_zero, Int.add_zero]
  rfl

/-- A significand that rounding has filled up is halved. -/
theorem shift_of_filled {e : Int} (he : -1074 ≤ e) :
    shiftToTargetExponent .binary64 (2 ^ 53) e .exact = (⟨2 ^ 52, false, false⟩, e + 1) := by
  have ht : Format.binary64.targetExponent (totalExponent (2 ^ 53) e) = e + 1 := by
    rw [targetExponent_eq, Nat.log2_two_pow]
    omega
  rw [shiftToTargetExponent, ht, shiftToExponent, show e + 1 - e = 1 by omega]
  rfl

/-- A number lies between two powers of two that its significand tells. -/
theorem binade_bounds {n : Nat} {x : Int} {acc : Accuracy} {q : ℚ}
    (hq : Places (q / 2 ^ x - n) acc) :
    q < 2 ^ (n.log2 + x + 1) ∧ (n = 0 ∨ 2 ^ (n.log2 + x) ≤ q) := by
  obtain ⟨hlo, hhi⟩ := hq.bounds
  have hpow : (0 : ℚ) < 2 ^ x := by positivity
  have hsplit : ∀ k : Nat, (2 : ℚ) ^ ((k : Int) + x) = 2 ^ k * 2 ^ x := by
    intro k
    rw [zpow_add₀ two_ne_zero, zpow_natCast]
  constructor
  · have hn : ((n + 1 : Nat) : ℚ) ≤ ((2 ^ (n.log2 + 1) : Nat) : ℚ) := by
      exact_mod_cast Nat.lt_log2_self
    push_cast at hn
    have hlt : q / 2 ^ x < 2 ^ (n.log2 + 1) := by linarith
    rw [show (n.log2 : Int) + x + 1 = ((n.log2 + 1 : Nat) : Int) + x by push_cast; ring, hsplit]
    exact (div_lt_iff₀ hpow).mp hlt
  · by_cases h0 : n = 0
    · exact .inl h0
    · right
      have hn : ((2 ^ n.log2 : Nat) : ℚ) ≤ (n : ℚ) := by exact_mod_cast Nat.log2_self_le h0
      push_cast at hn
      rw [hsplit]
      exact (le_div_iff₀ hpow).mp (by linarith)

section

variable {b : Binary} {n : Nat} {x : Int} {acc : Accuracy} {q : ℚ}

/-- Powers of two around a float, counted in its quarters. -/
theorem two_zpow_add_exponent (b : Binary) (k : Nat) :
    (2 : ℚ) ^ ((k : Int) + b.exponent) = 2 ^ k * (4 * b.quarter) := by
  rw [zpow_add₀ two_ne_zero, zpow_natCast, b.two_zpow_exponent]

/-- The leading bit of a number that belongs to a float is not above the float's own. -/
theorem leading_le_of_rounds (hb : b.Normal) (hq : Places (q / 2 ^ x - n) acc)
    (hr : b.Rounds q) : n = 0 ∨ n.log2 + x ≤ 52 + b.exponent := by
  have hu := b.quarter_pos
  have hbelow := hr.below
  rw [Binary.high_eq] at hbelow
  have hcast : (b.significand : ℚ) + 1 ≤ 2 ^ 53 := by exact_mod_cast hb.short
  rcases (binade_bounds hq).2 with h0 | hlower
  · exact .inl h0
  · right
    have hlt : (2 : ℚ) ^ (n.log2 + x) < 2 ^ (((53 : Nat) : Int) + b.exponent) := by
      rw [two_zpow_add_exponent]
      nlinarith
    have := (zpow_lt_zpow_iff_right₀ (by norm_num : (1 : ℚ) < 2)).mp hlt
    omega

/-- The leading bit of a number that belongs to a float is at most one place below the float's own,
unless the float's is missing. -/
theorem leading_ge_of_rounds (hfull : 2 ^ 52 ≤ b.significand) (hq : Places (q / 2 ^ x - n) acc)
    (hr : b.Rounds q) : 51 + b.exponent ≤ n.log2 + x := by
  have hu := b.quarter_pos
  have habove := le_trans b.le_low hr.above
  have hcast : (2 : ℚ) ^ 52 ≤ b.significand := by exact_mod_cast hfull
  have hlt : (2 : ℚ) ^ (((51 : Nat) : Int) + b.exponent) < 2 ^ (n.log2 + x + 1) := by
    refine lt_trans ?_ (binade_bounds hq).1
    rw [two_zpow_add_exponent]
    nlinarith
  have := (zpow_lt_zpow_iff_right₀ (by norm_num : (1 : ℚ) < 2)).mp hlt
  omega

/-- Below a float's binade there is only the lower end of the first number of that binade. -/
theorem narrow_of_leading_lt (hb : b.Normal) (hfull : 2 ^ 52 ≤ b.significand)
    (hleast : b.exponent ≠ -1074) (hq : Places (q / 2 ^ x - n) acc) (hr : b.Rounds q)
    (hlt : n.log2 + x < 52 + b.exponent) : b.narrowBelow = true ∧ q < b.value := by
  have hu := b.quarter_pos
  have habove := le_trans b.le_low hr.above
  have hcast : (2 : ℚ) ^ 52 ≤ b.significand := by exact_mod_cast hfull
  have hq52 : q < 2 ^ 52 * (4 * b.quarter) := by
    refine lt_of_lt_of_le (binade_bounds hq).1 ?_
    rw [← two_zpow_add_exponent]
    exact zpow_le_zpow_right₀ (by norm_num) (by push_cast; omega)
  have hm : b.significand = 2 ^ 52 := by
    have hlt : (b.significand : ℚ) < 2 ^ 52 + 1 := by nlinarith
    have hlt : b.significand < 2 ^ 52 + 1 := by exact_mod_cast hlt
    omega
  refine ⟨Binary.narrowBelow_iff.mpr ⟨hm, ?_⟩, ?_⟩
  · have := hb.least
    simp only [Binary.leastExponent] at this ⊢
    omega
  · rw [Binary.value_eq, hm]
    push_cast
    linarith

/-- **Where a number that belongs to a float is cut down**: at the float's own last place, or, where
the float below is near, at the last place of that one. -/
theorem target_of_rounds (hb : b.Normal) (hq : Places (q / 2 ^ x - n) acc)
    (hx : x ≤ Format.binary64.targetExponent (totalExponent n x)) (hr : b.Rounds q) :
    (Format.binary64.targetExponent (totalExponent n x) = b.exponent ∧
        (b.narrowBelow = true → b.value ≤ q)) ∨
      (Format.binary64.targetExponent (totalExponent n x) = b.exponent - 1 ∧
        b.narrowBelow = true ∧ q < b.value) := by
  have htop := leading_le_of_rounds hb hq hr
  have hleast := hb.least
  have hfull := hb.full
  rw [targetExponent_eq] at hx ⊢
  simp only [Binary.leastExponent] at hleast hfull
  by_cases hsub : b.exponent = -1074
  · left
    refine ⟨?_, fun hn => ?_⟩
    · rcases htop with h0 | htop
      · rw [h0, Nat.log2_zero] at hx ⊢
        omega
      · omega
    · have := (Binary.narrowBelow_iff.mp hn).2
      simp only [Binary.leastExponent] at this
      omega
  · have hfull := hfull.resolve_right hsub
    have hbottom := leading_ge_of_rounds hfull hq hr
    rcases htop with h0 | htop
    · rw [h0, Nat.log2_zero] at hx hbottom
      omega
    rcases Int.lt_or_eq_of_le htop with hlt | heq
    · exact .inr ⟨by omega, narrow_of_leading_lt hb hfull hsub hq hr hlt⟩
    · left
      refine ⟨by omega, fun hn => ?_⟩
      rw [Binary.value_eq, (Binary.narrowBelow_iff.mp hn).1]
      rcases (binade_bounds hq).2 with h0 | hlower
      · rw [h0, Nat.log2_zero] at hx heq
        omega
      · refine le_trans (le_of_eq ?_) hlower
        rw [heq, show (52 : Int) + b.exponent = ((52 : Nat) : Int) + b.exponent by norm_num,
          two_zpow_add_exponent]
        push_cast
        ring

end

/-- **A number that belongs to a float is rounded to it.**  The number is given by the digits of its
significand and the place of the rest behind them. -/
theorem roundWithAccuracy_of_rounds {b : Binary} (hb : b.Normal) {n : Nat} {x : Int}
    {acc : Accuracy} {q : ℚ} (hq : Places (q / 2 ^ x - n) acc)
    (hx : x ≤ Format.binary64.targetExponent (totalExponent n x)) (hr : b.Rounds q) :
    roundWithAccuracy .binary64 .positive n x acc = b.unpacked := by
  have hu := b.quarter_pos
  have hone := b.two_zpow_exponent
  obtain ⟨em, hshift, hem⟩ := represents_shift hq hx
  rcases target_of_rounds hb hq hx hr with ⟨ht, hnarrow⟩ | ⟨ht, hnarrow, hlt⟩
  · -- rounded at the float's own last place
    rw [ht] at hshift hem
    have hround : em.roundedMantissa = b.significand := by
      have hbelow := hr.below
      rw [Binary.high_eq] at hbelow
      rw [hone] at hem
      refine hem.roundedMantissa ?_ ?_ ?_
      · rw [le_div_iff₀ (by linarith)]
        exact le_trans (by linarith) (le_trans b.le_low hr.above)
      · rw [div_le_iff₀ (by linarith)]
        linarith
      · rw [div_eq_iff (by linarith), div_eq_iff (by linarith)]
        rintro (h | h)
        · by_cases hn : b.narrowBelow = true
          · have := hnarrow hn
            rw [Binary.value_eq] at this
            nlinarith
          · rcases Nat.eq_zero_or_pos b.significand with h0 | hpos
            · rw [h0]
            · exact hr.even (.inl (by rw [Binary.low_eq_of_wide hpos hn]; linarith))
        · exact hr.even (.inr (by rw [Binary.high_eq]; linarith))
    unfold roundWithAccuracy
    rw [hshift]
    dsimp only
    rw [hround, shift_of_normal hb]
    by_cases h0 : b.significand = 0
    · rw [Binary.unpacked, dif_neg (Nat.not_lt.mpr h0.le)]
      exact dif_pos h0
    · rw [Binary.unpacked_eq (Nat.pos_of_ne_zero h0)]
      exact dif_neg h0
  · -- rounded at the place below, which fills the significand up
    rw [ht] at hshift hem
    obtain ⟨hm, hleast⟩ := Binary.narrowBelow_iff.mp hnarrow
    have hcast : (b.significand : ℚ) = 2 ^ 52 := by exact_mod_cast hm
    have hround : em.roundedMantissa = 2 ^ 53 := by
      have habove := hr.above
      rw [Binary.low_eq_of_narrow hnarrow, hcast] at habove
      rw [Binary.value_eq, hcast] at hlt
      rw [zpow_sub_one₀ two_ne_zero, hone] at hem
      refine hem.roundedMantissa ?_ ?_ (fun _ => by norm_num)
      · rw [le_div_iff₀ (by linarith)]
        push_cast
        linarith
      · rw [div_le_iff₀ (by linarith)]
        push_cast
        linarith
    simp only [Binary.leastExponent] at hleast
    unfold roundWithAccuracy
    rw [hshift]
    dsimp only
    rw [hround, shift_of_filled (by omega), Binary.unpacked_eq (by omega)]
    refine (dif_neg (by norm_num)).trans (Packing.finite_congr rfl hm.symm ?_)
    exact Int.sub_add_cancel _ _

end Honeycomb
