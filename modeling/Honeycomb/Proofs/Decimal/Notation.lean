import Honeycomb.Decimal.Notation
import Honeycomb.Proofs.Decimal.Digits
import Honeycomb.Proofs.Decimal.Shortest

/-!
# The text of a decimal

* `Decimal.value_bounds` — the place of the point tells the size of a decimal.
* `units_of_whole`, `units_of_inner`, `units_of_small`, `units_of_tiny` — a whole number is written
  out, a fraction has digits on both sides of its point, and a tiny one has an exponent.
-/

set_option autoImplicit false

namespace Honeycomb.Decimal

open Text (unit)

variable {d : Decimal}

/-- How many of the digits stand before the point. -/
def point (d : Decimal) : Int := (Digits.ofNat d.coefficient).length + d.exponent

theorem value_bounds (h : 0 < d.coefficient) :
    (10 : ℚ) ^ (d.point - 1) ≤ d.value ∧ d.value < 10 ^ d.point := by
  obtain ⟨hlow, hhigh⟩ := Digits.ofNat_bounds h
  obtain ⟨l, hl⟩ : ∃ l, (Digits.ofNat d.coefficient).length = l + 1 :=
    Nat.exists_eq_add_one_of_ne_zero (by simp [Digits.ofNat_ne_nil])
  rw [hl, Nat.add_sub_cancel] at hlow
  rw [hl] at hhigh
  have hten : (0 : ℚ) < 10 ^ d.exponent := by positivity
  have hlowq : (10 : ℚ) ^ l ≤ d.coefficient := by exact_mod_cast hlow
  have hhighq : (d.coefficient : ℚ) < 10 ^ (l + 1) := by exact_mod_cast hhigh
  have hpow : ∀ k : Nat, (10 : ℚ) ^ ((k : ℤ) + d.exponent) = 10 ^ k * 10 ^ d.exponent := by
    intro k
    rw [zpow_add₀ (by norm_num), zpow_natCast]
  constructor
  · rw [point, hl, show ((l + 1 : Nat) : ℤ) + d.exponent - 1 = (l : ℤ) + d.exponent by
      push_cast; ring, hpow]
    exact mul_le_mul_of_nonneg_right hlowq hten.le
  · rw [point, hl, hpow]
    exact mul_lt_mul_of_pos_right hhighq hten

theorem length_pos (d : Decimal) : 0 < (Digits.ofNat d.coefficient).length :=
  List.length_pos_iff.mpr (Digits.ofNat_ne_nil _)

/-- A whole number below the limit is written out. -/
theorem units_of_whole (he : 0 ≤ d.exponent) (hp : d.point ≤ positionalLimit) :
    d.units = Digits.ofNat d.coefficient ++ zeros d.exponent.toNat := by
  have hlen := length_pos d
  unfold units
  dsimp only
  rw [if_pos ⟨by omega, hp⟩, if_pos he]

/-- The point stands among the digits. -/
theorem units_of_inner (he : d.exponent < 0) (hp : 0 < d.point) (hp' : d.point ≤ positionalLimit) :
    d.units = (Digits.ofNat d.coefficient).take d.point.toNat ++
      unit '.' :: (Digits.ofNat d.coefficient).drop d.point.toNat := by
  unfold units
  dsimp only
  rw [if_pos ⟨hp, hp'⟩, if_neg (by omega)]
  rfl

/-- The point stands before the digits, with zeros between. -/
theorem units_of_small (hp : leadingZeroLimit < d.point) (hp' : d.point ≤ 0) :
    d.units = [unit '0'] ++
      unit '.' :: (zeros (-d.point).toNat ++ Digits.ofNat d.coefficient) := by
  unfold units
  dsimp only
  rw [if_neg (fun h => absurd h.1 (by unfold point at hp'; omega)), if_pos ⟨hp, hp'⟩]
  rfl

/-- Any other decimal has one digit before the point, if there is one, and an exponent. -/
theorem units_of_tiny (hp : positionalLimit < d.point ∨ d.point ≤ leadingZeroLimit) :
    ∃ u more, Digits.isDigit u = true ∧ (d.units = [u] ++ unit 'e' :: more ∨
      ∃ rest, d.units = [u] ++ unit '.' :: (rest ++ unit 'e' :: more)) := by
  have hpos := length_pos d
  have hdigits := Digits.isDigit_of_mem_ofNat d.coefficient
  simp only [positionalLimit, leadingZeroLimit, point] at hp
  unfold units
  dsimp only
  rw [if_neg (by simp only [positionalLimit]; omega),
    if_neg (by simp only [leadingZeroLimit]; omega)]
  generalize Digits.ofNat d.coefficient = digits at hpos hdigits
  match digits with
  | [] => cases hpos
  | [u] => exact ⟨u, _, hdigits u List.mem_cons_self, .inl rfl⟩
  | u :: v :: rest => exact ⟨u, _, hdigits u List.mem_cons_self, .inr ⟨v :: rest, rfl⟩⟩

end Honeycomb.Decimal
