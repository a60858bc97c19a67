import Honeycomb.Scalar
import Honeycomb.Proofs.Decimal.Reading

/-!
# Whole numbers are floats

Below `2 ^ 53` every whole number is a float, and sums and products of whole numbers come out
without rounding as long as they stay there.

* `wholeParts` — the parts of the float that a whole number is; `unpack_ofInt` says so.
* `round_whole` — a significand and an exponent that stand for a whole number are rounded to it.
* `ofInt_add`, `ofInt_mul` — sums and products.
-/

set_option autoImplicit false

namespace Honeycomb

open Float.Model (UnpackedFloat Format totalExponent)
open Float.Model.UnpackedFloat

/-- The sign of a whole number. -/
def signOf (n : Int) : Sign := if n < 0 then .negative else .positive

/-- The parts of a whole number. -/
def wholeParts (n : Int) : UnpackedFloat :=
  if h : 0 < (Binary.ofNat n.natAbs).significand then
    .finite (signOf n) (Binary.ofNat n.natAbs).significand (Binary.ofNat n.natAbs).exponent h
  else .zero .positive

section

variable {n m : Nat} {e : Int}

theorem Binary.canonical_whole (hpos : 0 < n) (hlt : n < 2 ^ 53) :
    (Binary.ofNat n).Canonical ∧ 2 ^ 52 ≤ (Binary.ofNat n).significand := by
  have hlog := (Nat.log2_lt hpos.ne').mpr hlt
  exact canonical_ofNat hpos (by omega)

theorem Binary.value_whole (hlt : n < 2 ^ 53) : (Binary.ofNat n).value = n :=
  value_ofNat (fits_of_lt hlt)

theorem Binary.rounds_whole (hpos : 0 < n) (hlt : n < 2 ^ 53) : (Binary.ofNat n).Rounds n := by
  have hrounds := (canonical_whole hpos hlt).1.rounds_value
  rwa [value_whole hlt] at hrounds

/-- The sign has no part in rounding. -/
theorem roundWithAccuracy_sign {b : Binary} (hpos : 0 < b.significand) (s : Sign)
    {acc : Accuracy} (h : roundWithAccuracy .binary64 .positive m e acc = b.unpacked) :
    roundWithAccuracy .binary64 s m e acc = .finite s b.significand b.exponent hpos := by
  rw [Binary.unpacked_eq hpos] at h
  unfold roundWithAccuracy at h ⊢
  dsimp only at h ⊢
  rcases dite_eq_iff.mp h with ⟨-, h⟩ | ⟨hne, h⟩
  · cases h
  · injection h with _ hm he
    exact (dif_neg hne).trans (Packing.finite_congr rfl hm he)

theorem log2_shiftLeft (hm : 0 < m) (k : Nat) : (m <<< k).log2 = m.log2 + k := by
  rw [Nat.log2_eq_iff (by simp [hm.ne']), Nat.shiftLeft_eq, Nat.add_right_comm, pow_add, pow_add]
  constructor
  · exact Nat.mul_le_mul_right _ (Nat.log2_self_le hm.ne')
  · exact Nat.mul_lt_mul_of_pos_right Nat.lt_log2_self (by positivity)

/-- A shift to the left and a lower exponent leave a number as it is. -/
theorem shiftLeft_value (m k : Nat) (e : Int) :
    ((m <<< k : Nat) : ℚ) * 2 ^ (e - k) = m * 2 ^ e := by
  rw [Nat.shiftLeft_eq, Nat.cast_mul, Nat.cast_pow, Nat.cast_ofNat, ← zpow_natCast, mul_assoc,
    ← zpow_add₀ two_ne_zero, add_sub_cancel]

/-- **A number that is whole is rounded to itself**, whatever stands for it. -/
theorem round_whole (hpos : 0 < n) (hlt : n < 2 ^ 53) (s : Sign) (hv : (m : ℚ) * 2 ^ e = n) :
    UnpackedFloat.round .binary64 s m e =
      .finite s (Binary.ofNat n).significand (Binary.ofNat n).exponent
        (Binary.canonical_whole hpos hlt).1.positive := by
  have hm : 0 < m := by
    rcases Nat.eq_zero_or_pos m with rfl | hm
    · rw [Nat.cast_zero, zero_mul] at hv
      exact absurd (Nat.cast_eq_zero.mp hv.symm) hpos.ne'
    · exact hm
  obtain ⟨hcanonical, -⟩ := Binary.canonical_whole hpos hlt
  rw [UnpackedFloat.round]
  generalize ht : Format.binary64.targetExponent (totalExponent m e) = t
  rw [targetExponent_eq] at ht
  have hvalue := shiftLeft_value m (e - t).toNat e
  rw [hv] at hvalue
  dsimp only [decreaseExponent]
  apply roundWithAccuracy_sign hcanonical.positive s
  refine roundWithAccuracy_of_rounds hcanonical.normal ?_ ?_ (Binary.rounds_whole hpos hlt)
  · show _ = _
    rw [← hvalue, mul_div_cancel_right₀ _ (by positivity), sub_self]
  · rw [targetExponent_eq, log2_shiftLeft hm]
    omega

theorem wholeParts_zero : wholeParts 0 = .zero .positive := dif_neg (by decide)

theorem wholeParts_eq {n : Int} (hne : n ≠ 0) (hlt : n.natAbs < 2 ^ 53) :
    wholeParts n = .finite (signOf n) (Binary.ofNat n.natAbs).significand
      (Binary.ofNat n.natAbs).exponent
      (Binary.canonical_whole (Int.natAbs_pos.mpr hne) hlt).1.positive :=
  dif_pos _

theorem ofNat_eq_float (hpos : 0 < n) (hlt : n < 2 ^ 53) :
    Float.ofNat n = (Binary.ofNat n).float := by
  have hrounds := Binary.rounds_whole hpos hlt
  exact ofScientific_of_rounds (i := 0) (Binary.canonical_whole hpos hlt).1.normal hpos (by omega)
    (by omega) (by rwa [zpow_zero, mul_one])

theorem unpack_ofNat (hpos : 0 < n) (hlt : n < 2 ^ 53) :
    (Float.ofNat n).toModel.unpack =
      .finite .positive (Binary.ofNat n).significand (Binary.ofNat n).exponent
        (Binary.canonical_whole hpos hlt).1.positive := by
  obtain ⟨hcanonical, -⟩ := Binary.canonical_whole hpos hlt
  rw [ofNat_eq_float hpos hlt, hcanonical.unpack_float, Binary.unpacked_eq hcanonical.positive]

end

/-- **Whole numbers are floats.** -/
theorem unpack_ofInt {n : Int} (h : n.natAbs < 2 ^ 53) :
    (Float.ofInt n).toModel.unpack = wholeParts n := by
  by_cases hne : n = 0
  · subst hne
    rw [wholeParts_zero]
    rfl
  have hpos : 0 < n.natAbs := Int.natAbs_pos.mpr hne
  rw [wholeParts_eq hne h]
  cases n with
  | ofNat k => exact unpack_ofNat hpos h
  | negSucc k =>
    have hneg : Float.ofInt (.negSucc k) =
        .ofModel (.pack (neg (Float.ofNat (Int.negSucc k).natAbs).toModel.unpack)) := rfl
    have hsign : signOf (.negSucc k) = .negative := if_pos (Int.negSucc_lt_zero k)
    rw [hneg, unpack_ofNat hpos h, hsign]
    exact Packing.unpack_pack (Binary.canonical_whole hpos h).1

theorem ofInt_beq_zero {n : Int} (hne : n ≠ 0) (h : n.natAbs < 2 ^ 53) :
    (Float.ofInt n == 0) = false := by
  show UnpackedFloat.beq (Float.ofInt n).toModel.unpack (.zero .positive) = false
  rw [unpack_ofInt h, wholeParts_eq hne h]
  cases signOf n <;> rfl

/-- Parts that are those of a whole number make the float that it is. -/
theorem ofModel_pack_wholeParts {n : Int} (h : n.natAbs < 2 ^ 53) :
    Float.ofModel (.pack (wholeParts n)) = Float.ofInt n := by
  rw [← unpack_ofInt h, Packing.pack_unpack]

/-- The whole number that the parts stand for. -/
theorem wholeParts_value {n : Int} (h : n.natAbs < 2 ^ 53) :
    (((signOf n).apply (Binary.ofNat n.natAbs).significand : Int) : ℚ) *
      2 ^ (Binary.ofNat n.natAbs).exponent = n := by
  have hv := Binary.value_whole h
  rw [Binary.value] at hv
  unfold signOf
  split
  · rename_i hneg
    have habs : ((n.natAbs : Nat) : ℚ) = -n := by
      rw [← Int.cast_natCast, Int.ofNat_natAbs_of_nonpos hneg.le, Int.cast_neg]
    rw [Sign.apply, Int.cast_neg, neg_mul, Int.cast_natCast, hv, habs, neg_neg]
  · rename_i hnonneg
    have habs : ((n.natAbs : Nat) : ℚ) = n := by
      rw [← Int.cast_natCast, Int.natAbs_of_nonneg (not_lt.mp hnonneg)]
    rw [Sign.apply, Int.cast_natCast, hv, habs]

/-- **What stands for a whole number is rounded to it.** -/
theorem normalize_whole {n m e : Int} (h : n.natAbs < 2 ^ 53) (hv : (m : ℚ) * 2 ^ e = n) :
    UnpackedFloat.normalize .binary64 m e .positive = wholeParts n := by
  have hpow : (0 : ℚ) < 2 ^ e := by positivity
  have habs : (m.natAbs : ℚ) * 2 ^ e = n.natAbs := by
    rw [Nat.cast_natAbs, Nat.cast_natAbs, Int.cast_abs, Int.cast_abs, ← hv, abs_mul,
      abs_of_pos hpow]
  unfold UnpackedFloat.normalize
  rcases lt_trichotomy m 0 with hm | rfl | hm
  · have hn : n < 0 := by
      have : (n : ℚ) < 0 := hv ▸ mul_neg_of_neg_of_pos (by exact_mod_cast hm) hpow
      exact_mod_cast this
    have hmag : (-m).toNat = m.natAbs := by omega
    rw [compare_lt_iff_lt.mpr hm, wholeParts_eq hn.ne h, signOf, if_pos hn]
    exact round_whole (by omega) h .negative (by rw [hmag, habs])
  · have hn : n = 0 := by
      rw [Int.cast_zero, zero_mul] at hv
      exact_mod_cast hv.symm
    rw [hn, wholeParts_zero]
    rfl
  · have hn : 0 < n := by
      have : (0 : ℚ) < n := hv ▸ mul_pos (by exact_mod_cast hm) hpow
      exact_mod_cast this
    have hmag : m.toNat = m.natAbs := by omega
    rw [compare_gt_iff_gt.mpr hm, wholeParts_eq hn.ne' h, signOf, if_neg hn.not_gt]
    exact round_whole (by omega) h .positive (by rw [hmag, habs])

theorem shiftLeft_apply {m : Nat} {e t : Int} (s : Sign) (ht : t ≤ e) :
    ((s.apply (m <<< (e - t).toNat : Nat) : Int) : ℚ) * 2 ^ t = (s.apply m : Int) * 2 ^ e := by
  have hvalue := shiftLeft_value m (e - t).toNat e
  rw [show e - (e - t).toNat = t by omega] at hvalue
  cases s <;> simp only [Sign.apply, Int.cast_neg, Int.cast_natCast, neg_mul, hvalue]

theorem add_wholeParts {a b : Int} (ha : a.natAbs < 2 ^ 53) (hb : b.natAbs < 2 ^ 53)
    (hab : (a + b).natAbs < 2 ^ 53) :
    add .binary64 (wholeParts a) (wholeParts b) = wholeParts (a + b) := by
  by_cases ha0 : a = 0
  · rw [ha0, wholeParts_zero, Int.zero_add]
    by_cases hb0 : b = 0
    · rw [hb0, wholeParts_zero]
      rfl
    · rw [wholeParts_eq hb0 hb]
      rfl
  by_cases hb0 : b = 0
  · rw [hb0, wholeParts_zero, Int.add_zero, wholeParts_eq ha0 ha]
    rfl
  have hva := wholeParts_value ha
  have hvb := wholeParts_value hb
  rw [wholeParts_eq ha0 ha, wholeParts_eq hb0 hb]
  refine normalize_whole hab ?_
  rw [Int.cast_add, add_mul, shiftLeft_apply _ (min_le_left _ _),
    shiftLeft_apply _ (min_le_right _ _), hva, hvb, Int.cast_add]

/-- **Sums of whole numbers are exact.** -/
theorem ofInt_add {a b : Int} (ha : a.natAbs < 2 ^ 53) (hb : b.natAbs < 2 ^ 53)
    (hab : (a + b).natAbs < 2 ^ 53) : Float.ofInt a + Float.ofInt b = Float.ofInt (a + b) := by
  show Float.ofModel (.pack (add .binary64 (Float.ofInt a).toModel.unpack
    (Float.ofInt b).toModel.unpack)) = _
  rw [unpack_ofInt ha, unpack_ofInt hb, add_wholeParts ha hb hab, ofModel_pack_wholeParts hab]

theorem signOf_mul {a b : Int} (ha : a ≠ 0) (hb : b ≠ 0) :
    signOf a * signOf b = signOf (a * b) := by
  unfold signOf
  rcases lt_or_gt_of_ne ha with ha | ha <;> rcases lt_or_gt_of_ne hb with hb | hb
  · rw [if_pos ha, if_pos hb, if_neg (Int.mul_pos_of_neg_of_neg ha hb).not_gt]
    rfl
  · rw [if_pos ha, if_neg hb.not_gt, if_pos (Int.mul_neg_of_neg_of_pos ha hb)]
    rfl
  · rw [if_neg ha.not_gt, if_pos hb, if_pos (Int.mul_neg_of_pos_of_neg ha hb)]
    rfl
  · rw [if_neg ha.not_gt, if_neg hb.not_gt, if_neg (Int.mul_pos ha hb).not_gt]
    rfl

theorem mul_wholeParts {a b : Int} (ha : a.natAbs < 2 ^ 53) (hb : b.natAbs < 2 ^ 53)
    (hab : (a * b).natAbs < 2 ^ 53) (hne : a * b ≠ 0) :
    mul .binary64 (wholeParts a) (wholeParts b) = wholeParts (a * b) := by
  have ha0 : a ≠ 0 := left_ne_zero_of_mul hne
  have hb0 : b ≠ 0 := right_ne_zero_of_mul hne
  obtain ⟨hca, hlong⟩ := Binary.canonical_whole (Int.natAbs_pos.mpr ha0) ha
  obtain ⟨hcb, -⟩ := Binary.canonical_whole (Int.natAbs_pos.mpr hb0) hb
  obtain ⟨hcab, -⟩ := Binary.canonical_whole (Int.natAbs_pos.mpr hne) hab
  have hvalue : ((a * b).natAbs : ℚ) =
      (Binary.ofNat a.natAbs).value * (Binary.ofNat b.natAbs).value := by
    rw [Binary.value_whole ha, Binary.value_whole hb, Int.natAbs_mul, Nat.cast_mul]
  have hrounds := Binary.rounds_whole (Int.natAbs_pos.mpr hne) hab
  rw [hvalue] at hrounds
  have hmul := mul_of_rounds hcab.normal hca.positive hcb.positive
    (le_trans hlong (Nat.le_mul_of_pos_right _ hcb.positive)) hrounds
  rw [Binary.unpacked_eq hca.positive, Binary.unpacked_eq hcb.positive] at hmul
  rw [wholeParts_eq ha0 ha, wholeParts_eq hb0 hb, wholeParts_eq hne hab, ← signOf_mul ha0 hb0]
  exact roundWithAccuracy_sign hcab.positive _ hmul

/-- **Products of whole numbers are exact**, apart from zero, which may get a sign. -/
theorem ofInt_mul {a b : Int} (ha : a.natAbs < 2 ^ 53) (hb : b.natAbs < 2 ^ 53)
    (hab : (a * b).natAbs < 2 ^ 53) (hne : a * b ≠ 0) :
    Float.ofInt a * Float.ofInt b = Float.ofInt (a * b) := by
  show Float.ofModel (.pack (mul .binary64 (Float.ofInt a).toModel.unpack
    (Float.ofInt b).toModel.unpack)) = _
  rw [unpack_ofInt ha, unpack_ofInt hb, mul_wholeParts ha hb hab hne, ofModel_pack_wholeParts hab]

end Honeycomb
