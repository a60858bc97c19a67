import Honeycomb.Proofs.Decimal.Range

/-!
# Decimals are read as the nearest float

* `Binary.Nearest` — no normal fraction is nearer to a number, and if another one is as near, this
  one is even.
* `Binary.Rounds.nearest`, `Binary.Nearest.unique` — the fraction that a number belongs to is the
  nearest one, and there is no other.
* `Rounded` — the float that a number is rounded to: the infinite one, if the nearest fraction is
  beyond the floats; `Rounded.unique` — there is one at most.  `Exact` — the float that a number is
  itself.
* `nearestFloat_rounded` — a decimal is read as the float that its number is rounded to.
-/

set_option autoImplicit false

namespace Honeycomb

namespace Binary

variable {a b : Binary} {q : ℚ}

/-! ## The nearest fraction -/

/-- The normal fraction that is nearest to a number, the even one of two. -/
structure Nearest (b : Binary) (q : ℚ) : Prop where
  normal : b.Normal
  least : ∀ a : Binary, a.Normal → |b.value - q| ≤ |a.value - q|
  even : ∀ a : Binary, a.Normal → a.value ≠ b.value → |a.value - q| = |b.value - q| →
    b.significand % 2 = 0

/-- A smaller fraction is no nearer, and as near only to the lower end of what belongs here. -/
theorem Rounds.least_below (h : b.Rounds q) (ha : a.Normal) (hb : b.Normal)
    (hlt : a.value < b.value) :
    |b.value - q| ≤ |a.value - q| ∧ (|a.value - q| = |b.value - q| → q = b.low) := by
  have hmiddle := middle_le_low ha hb hlt
  have habove := h.above
  have haway : |a.value - q| = q - a.value := by
    rw [abs_sub_comm, abs_of_nonneg]
    linarith
  rw [haway]
  refine ⟨abs_le.mpr ⟨by linarith, by linarith⟩, fun heq => ?_⟩
  rcases abs_choice (b.value - q) with hb | hb <;> linarith

/-- A greater fraction is no nearer, and as near only to the upper end of what belongs here. -/
theorem Rounds.least_above (h : b.Rounds q) (ha : a.Normal) (hb : b.Normal)
    (hlt : b.value < a.value) :
    |b.value - q| ≤ |a.value - q| ∧ (|a.value - q| = |b.value - q| → q = b.high) := by
  have hmiddle := high_le_middle hb ha hlt
  have hbelow := h.below
  have haway : |a.value - q| = a.value - q := abs_of_nonneg (by linarith)
  rw [haway]
  refine ⟨abs_le.mpr ⟨by linarith, by linarith⟩, fun heq => ?_⟩
  rcases abs_choice (b.value - q) with hb | hb <;> linarith

/-- **The fraction that a number belongs to is the nearest one.** -/
theorem Rounds.nearest (h : b.Rounds q) (hb : b.Normal) : b.Nearest q := by
  refine ⟨hb, fun a ha => ?_, fun a ha hne heq => ?_⟩
  · rcases lt_trichotomy a.value b.value with hlt | heq | hgt
    · exact (h.least_below ha hb hlt).1
    · rw [heq]
    · exact (h.least_above ha hb hgt).1
  · rcases lt_or_gt_of_ne hne with hlt | hgt
    · exact h.even (.inl ((h.least_below ha hb hlt).2 heq))
    · exact h.even (.inr ((h.least_above ha hb hgt).2 heq))

/-- Of two nearest fractions neither is the smaller one. -/
theorem Nearest.not_below (ha : a.Nearest q) (hb : b.Nearest q) : ¬ a.value < b.value := by
  intro hlt
  have hsame : |a.value - q| = |b.value - q| :=
    le_antisymm (ha.least b hb.normal) (hb.least a ha.normal)
  have haeven := ha.even b hb.normal hlt.ne' hsame.symm
  have hbeven := hb.even a ha.normal hlt.ne hsame
  have hmiddle : a.value + b.value = 2 * q := by
    rcases abs_eq_abs.mp hsame with heq | heq <;> linarith
  -- the fraction above an even one is odd, so that it lies strictly between the two
  have hshort := ha.normal.short
  have hnext : (⟨a.significand + 1, a.exponent⟩ : Binary).Normal :=
    ⟨by dsimp only; omega, ha.normal.least, ha.normal.full.imp_left Nat.le_succ_of_le⟩
  have hplace : (⟨a.significand + 1, a.exponent⟩ : Binary).value = a.value + 4 * a.quarter := by
    have hquarter : (⟨a.significand + 1, a.exponent⟩ : Binary).quarter = a.quarter := rfl
    rw [value_eq, value_eq a, hquarter]
    push_cast
    ring
  have hhigh := high_le_middle ha.normal hb.normal hlt
  have hu := a.quarter_pos
  have hle : a.value + 4 * a.quarter ≤ b.value := by
    rw [high_eq, value_eq] at hhigh
    rw [value_eq a]
    linarith
  rcases hle.lt_or_eq with hbetween | hend
  · have hnearer := hb.least _ hnext
    rw [hplace, abs_of_nonneg (by linarith : 0 ≤ b.value - q)] at hnearer
    rcases abs_choice (a.value + 4 * a.quarter - q) with habs | habs <;>
      rw [habs] at hnearer <;> linarith
  · have hsuccessor := eq_of_value_eq hnext hb.normal (hplace.trans hend)
    rw [← hsuccessor] at hbeven
    dsimp only at hbeven
    omega

/-- **There is only one nearest fraction.** -/
theorem Nearest.unique (ha : a.Nearest q) (hb : b.Nearest q) : a = b :=
  eq_of_value_eq ha.normal hb.normal
    (le_antisymm (not_lt.mp (hb.not_below ha)) (not_lt.mp (ha.not_below hb)))

end Binary

/-! ## The nearest float -/

/-- The float that a number is rounded to: the nearest fraction, or the infinite float if that
fraction is beyond the floats. -/
def Rounded (q : ℚ) (x : Float) : Prop :=
  ∃ b : Binary, b.Nearest q ∧
    (b.exponent ≤ Binary.greatestExponent → x.toModel.unpack = b.unpacked) ∧
    (Binary.greatestExponent < b.exponent → x = infinity)

/-- The float that a number is itself. -/
def Exact (q : ℚ) (x : Float) : Prop :=
  ∃ b : Binary, x.toModel.unpack = b.unpacked ∧ b.value = q

/-- A number is rounded to one float at most. -/
theorem Rounded.unique {q : ℚ} {x y : Float} (hx : Rounded q x) (hy : Rounded q y) : x = y := by
  obtain ⟨a, ha, hfloat, hbeyond⟩ := hx
  obtain ⟨b, hb, hfloat', hbeyond'⟩ := hy
  obtain rfl := ha.unique hb
  rcases Int.lt_or_le Binary.greatestExponent a.exponent with he | he
  · rw [hbeyond he, hbeyond' he]
  · have hpacked : ∀ z : Float, z = .ofModel (.pack z.toModel.unpack) := fun z => by
      rw [Packing.pack_unpack]
    rw [hpacked x, hpacked y, hfloat he, hfloat' he]

/-- Up to the greatest exponent a float has the parts that it was made of. -/
theorem Binary.Normal.unpack_float {b : Binary} (hb : b.Normal)
    (he : b.exponent ≤ greatestExponent) : b.float.toModel.unpack = b.unpacked := by
  rcases Nat.eq_zero_or_pos b.significand with h0 | hpos
  · rw [float_of_zero h0, unpacked, dif_neg (by omega)]
    rfl
  · exact (hb.canonical hpos he).unpack_float

/-- The float of a fraction that a number belongs to. -/
theorem Binary.Rounds.rounded {b : Binary} {q : ℚ} (h : b.Rounds q) (hb : b.Normal) :
    Rounded q b.float := by
  refine ⟨b, h.nearest hb, hb.unpack_float, fun he => float_of_beyond ?_ he⟩
  simp only [greatestExponent] at he
  have hfull := hb.full.resolve_right (by simp only [leastExponent]; omega)
  omega

/-- **A decimal is read as the float that its number is rounded to.** -/
theorem nearestFloat_rounded (c : Nat) (i : Int) : Rounded (c * 10 ^ i) (nearestFloat c i) := by
  rcases Nat.eq_zero_or_pos c with rfl | hc
  · have hzero : (⟨0, Binary.leastExponent⟩ : Binary).Normal :=
      ⟨by norm_num, le_rfl, .inr rfl⟩
    have hrounds : (⟨0, Binary.leastExponent⟩ : Binary).Rounds 0 := by
      refine ⟨(Binary.low_eq_of_zero rfl).le, ?_, fun _ => rfl⟩
      rw [Binary.high_eq]
      have := (⟨0, Binary.leastExponent⟩ : Binary).quarter_pos
      positivity
    rw [Nat.cast_zero, zero_mul]
    have hread := hrounds.rounded hzero
    rwa [Binary.float_of_zero rfl] at hread
  · obtain ⟨b, hb, hr, hread⟩ := nearestFloat_spec hc i
    rw [hread]
    exact hr.rounded hb

end Honeycomb
