import Mathlib.Tactic.IntervalCases
import Honeycomb.Decimal.Reader
import Honeycomb.Proofs.Decimal.Nearest

/-!
# Decimals are read as the float they belong to

A decimal that is read goes through one of two computations: a short one is multiplied or divided by
a power of ten that is a float itself, any other is rounded in one step.

* `Binary.ofNat` — the natural numbers that are floats.
* `mul_of_rounds`, `div_of_rounds` — products and quotients of floats are rounded correctly.
* `ofScientific_of_rounds`, `nearestFloat_of_rounds` — a decimal that belongs to a float is read as
  that float, whichever way it is computed.
-/

set_option autoImplicit false

namespace Honeycomb

open Float.Model (UnpackedFloat Format totalExponent)
open Float.Model.UnpackedFloat

/-! ## Powers of two and of ten -/

theorem two_zpow_le_of_ratio {p q : Nat} {a i : Int} (hq : q ≠ 0)
    (hratio : ((2 : ℚ) ^ q) ^ a ≤ (10 ^ p) ^ a) (h : p * a ≤ q * i) : (2 : ℚ) ^ a ≤ 10 ^ i := by
  refine le_of_pow_le_pow_left₀ hq (by positivity) ?_
  calc ((2 : ℚ) ^ a) ^ q = (2 ^ q) ^ a := by
        rw [← zpow_natCast, ← zpow_natCast, ← zpow_mul, ← zpow_mul, mul_comm]
    _ ≤ (10 ^ p) ^ a := hratio
    _ = 10 ^ (p * a) := by rw [← zpow_natCast, ← zpow_mul]
    _ ≤ 10 ^ (q * i) := zpow_le_zpow_right₀ (by norm_num) h
    _ = (10 ^ i) ^ q := by rw [← zpow_natCast, ← zpow_mul, mul_comm]

/-- The logarithm of two lies between `59 / 196` and `28 / 93`. -/
theorem two_zpow_le_ten_zpow {a i : Int} (h : 28 * a ≤ 93 * i) (h' : 59 * a ≤ 196 * i) :
    (2 : ℚ) ^ a ≤ 10 ^ i := by
  rcases Int.le_total 0 a with ha | ha
  · exact two_zpow_le_of_ratio (p := 28) (q := 93) (by norm_num)
      (zpow_le_zpow_left₀ ha (by positivity) (by norm_num)) h
  · obtain ⟨k, rfl⟩ : ∃ k : Nat, a = -k := ⟨a.natAbs, by omega⟩
    refine two_zpow_le_of_ratio (p := 59) (q := 196) (by norm_num) ?_ h'
    rw [zpow_neg, zpow_neg, inv_le_inv₀ (by positivity) (by positivity), zpow_natCast, zpow_natCast]
    exact pow_le_pow_left₀ (by positivity) (by norm_num) k

theorem ten_zpow_le_two_zpow {i a : Int} (h : 93 * i ≤ 28 * a) (h' : 196 * i ≤ 59 * a) :
    (10 : ℚ) ^ i ≤ 2 ^ a := by
  have hinv := two_zpow_le_ten_zpow (a := -a) (i := -i) (by omega) (by omega)
  rw [zpow_neg, zpow_neg] at hinv
  exact (inv_le_inv₀ (by positivity) (by positivity)).mp hinv

namespace Binary

variable {b : Binary}

/-- A float belongs to itself. -/
theorem Canonical.rounds_value (hb : b.Canonical) : b.Rounds b.value := by
  have hu := b.quarter_pos
  have hlow := low_le hb.positive
  have hhigh := b.high_eq
  refine ⟨?_, ?_, ?_⟩
  · rw [value_eq]
    linarith
  · rw [value_eq]
    linarith
  · rintro (h | h) <;> rw [value_eq] at h <;> linarith

theorem roundWithAccuracy_of_canonical (hb : b.Canonical) :
    roundWithAccuracy .binary64 .positive b.significand b.exponent .exact = b.unpacked := by
  refine roundWithAccuracy_of_rounds hb.normal ?_ (le_of_eq (target_of_normal hb.normal).symm)
    hb.rounds_value
  show _ = _
  rw [value, mul_div_cancel_right₀ _ (by positivity), sub_self]

/-- A natural number with its first bit moved to the head of a significand. -/
def ofNat (n : Nat) : Binary := ⟨n <<< (52 - n.log2) >>> (n.log2 - 52), n.log2 - 52⟩

/-- No bit is lost. -/
def Fits (n : Nat) : Prop := 2 ^ (n.log2 - 52) ∣ n

instance (n : Nat) : Decidable (Fits n) := inferInstanceAs (Decidable (_ ∣ _))

theorem fits_of_lt {n : Nat} (h : n < 2 ^ 53) : Fits n := by
  rcases Nat.eq_zero_or_pos n with rfl | hpos
  · exact Nat.dvd_zero _
  · have := (Nat.log2_lt (by omega)).mpr h
    rw [Fits, show n.log2 - 52 = 0 by omega]
    exact Nat.one_dvd n

theorem value_ofNat {n : Nat} (h : Fits n) : (ofNat n).value = n := by
  obtain ⟨k, hk⟩ := h
  simp only [value, ofNat, Nat.shiftLeft_eq, Nat.shiftRight_eq_div_pow]
  generalize n.log2 = l at hk ⊢
  rcases Nat.le_total l 52 with hl | hl
  · have hpow : (2 : ℚ) ^ (52 - l) * 2 ^ ((l : Int) - 52) = 1 := by
      rw [← zpow_natCast, ← zpow_add₀ two_ne_zero, Nat.cast_sub hl]
      simp
    rw [Nat.sub_eq_zero_of_le hl, pow_zero, Nat.div_one]
    push_cast
    rw [mul_assoc, hpow, mul_one]
  · have hpow : (2 : ℚ) ^ ((l : Int) - 52) = 2 ^ (l - 52) := by
      rw [← zpow_natCast, Nat.cast_sub hl]
      rfl
    have hdiv : n / 2 ^ (l - 52) = k := by
      rw [hk, Nat.mul_div_cancel_left k (by positivity)]
    rw [Nat.sub_eq_zero_of_le hl, pow_zero, Nat.mul_one, hdiv, hpow, hk]
    push_cast
    ring

theorem canonical_ofNat {n : Nat} (hpos : 0 < n) (hmax : n.log2 ≤ 1023) :
    (ofNat n).Canonical ∧ 2 ^ 52 ≤ (ofNat n).significand := by
  have hlow := Nat.log2_self_le (by omega : n ≠ 0)
  have hhigh := Nat.lt_log2_self (n := n)
  have hsig : 2 ^ 52 ≤ (ofNat n).significand ∧ (ofNat n).significand < 2 ^ 53 := by
    simp only [ofNat, Nat.shiftLeft_eq, Nat.shiftRight_eq_div_pow]
    generalize n.log2 = l at hlow hhigh
    rw [Nat.le_div_iff_mul_le (by positivity), Nat.div_lt_iff_lt_mul (by positivity)]
    rcases Nat.le_total l 52 with hl | hl
    · rw [Nat.sub_eq_zero_of_le hl, pow_zero, Nat.mul_one, Nat.mul_one]
      have hsplit : 2 ^ 52 = 2 ^ l * 2 ^ (52 - l) := by rw [← pow_add]; congr 1; omega
      have hsplit' : 2 ^ 53 = 2 ^ (l + 1) * 2 ^ (52 - l) := by rw [← pow_add]; congr 1; omega
      rw [hsplit, hsplit']
      exact ⟨Nat.mul_le_mul_right _ hlow, Nat.mul_lt_mul_of_pos_right hhigh (by positivity)⟩
    · rw [Nat.sub_eq_zero_of_le hl, pow_zero, Nat.mul_one, ← pow_add, ← pow_add]
      rw [show 52 + (l - 52) = l by omega, show 53 + (l - 52) = l + 1 by omega]
      exact ⟨hlow, hhigh⟩
  refine ⟨⟨by omega, hsig.2, ?_, ?_, .inl hsig.1⟩, hsig.1⟩ <;>
    simp only [ofNat, leastExponent, greatestExponent] <;> omega

end Binary

/-! ## Products and quotients -/

/-- A product with enough bits is rounded correctly. -/
theorem mul_of_rounds {a p b : Binary} (hb : b.Normal) (ha : 0 < a.significand)
    (hp : 0 < p.significand) (hlong : 2 ^ 52 ≤ a.significand * p.significand)
    (hr : b.Rounds (a.value * p.value)) :
    mul .binary64 a.unpacked p.unpacked = b.unpacked := by
  have hplaces : Places (a.value * p.value / 2 ^ (a.exponent + p.exponent) -
      (a.significand * p.significand : Nat)) .exact := by
    have hpow : (0 : ℚ) < 2 ^ (a.exponent + p.exponent) := by positivity
    show _ = _
    rw [zpow_add₀ two_ne_zero] at hpow ⊢
    simp only [Binary.value]
    push_cast
    field_simp
    ring
  rw [Binary.unpacked_eq ha, Binary.unpacked_eq hp]
  refine roundWithAccuracy_of_rounds hb hplaces ?_ hr
  rw [targetExponent_eq]
  have := (Nat.le_log2 (Nat.mul_pos ha hp).ne').mpr hlong
  omega

theorem places_accuracyOfFraction {m n : Nat} (hn : 0 < n) :
    Places ((m : ℚ) / n - (m / n : Nat)) (accuracyOfFraction (m % n) n) := by
  have hnq : (0 : ℚ) < n := by exact_mod_cast hn
  have hmod := Nat.mod_lt m hn
  have hrest : (m : ℚ) / n - (m / n : Nat) = (m % n : Nat) / n := by
    have hsum : ((n * (m / n) + m % n : Nat) : ℚ) = m := by exact_mod_cast Nat.div_add_mod m n
    push_cast at hsum
    rw [div_sub' hnq.ne', ← hsum]
    congr 1
    ring
  rw [hrest]
  generalize m % n = k at hmod
  have hlt : (k : ℚ) < n := by exact_mod_cast hmod
  unfold accuracyOfFraction
  split
  · rename_i h0
    simp [Places, h0]
  · rename_i h0
    have hpos : (0 : ℚ) < k := by exact_mod_cast Nat.pos_of_ne_zero h0
    rcases Nat.lt_trichotomy (2 * k) n with h | h | h
    · have hq : (2 : ℚ) * k < n := by exact_mod_cast h
      rw [compare_lt_iff_lt.mpr h]
      refine ⟨div_pos hpos hnq, ?_⟩
      rw [div_lt_iff₀ hnq]
      linarith
    · have hq : (2 : ℚ) * k = n := by exact_mod_cast h
      rw [compare_eq_iff_eq.mpr h]
      show _ = _
      rw [div_eq_iff hnq.ne']
      linarith
    · have hq : (n : ℚ) < 2 * k := by exact_mod_cast h
      rw [compare_gt_iff_gt.mpr h]
      rw [Places, lt_div_iff₀ hnq, div_lt_iff₀ hnq]
      constructor <;> linarith

/-- A quotient is rounded correctly. -/
theorem div_of_rounds {a p b : Binary} (hb : b.Normal) (ha : 0 < a.significand)
    (hp : 0 < p.significand) (hr : b.Rounds (a.value / p.value)) :
    div .binary64 a.unpacked p.unpacked = b.unpacked := by
  rw [Binary.unpacked_eq ha, Binary.unpacked_eq hp]
  obtain ⟨m, x⟩ := a
  obtain ⟨n, y⟩ := p
  simp only [Binary.value] at ha hp hr
  have hnq : (0 : ℚ) < n := by exact_mod_cast hp
  unfold div divCore
  dsimp only
  generalize ht : min (x - y) (Format.binary64.targetExponent
    (totalExponent m x - totalExponent n y)) = t
  have hmin : Format.binary64.minExponent = -1074 := by decide
  have hbits : (Format.binary64.mantissaBits : Int) = 53 := by decide
  simp only [Format.targetExponent, totalExponent, hmin, hbits] at ht
  obtain ⟨k, hk⟩ : ∃ k : Nat, x - y - t = k := ⟨(x - y - t).toNat, by omega⟩
  rw [hk, Int.toNat_natCast, Nat.shiftLeft_eq]
  have hplaces : Places (m * 2 ^ x / (n * 2 ^ y) / 2 ^ t - (m * 2 ^ k / n : Nat))
      (accuracyOfFraction (m * 2 ^ k % n) n) := by
    have hvalue : (m * 2 ^ x / (n * 2 ^ y) / 2 ^ t : ℚ) = ((m * 2 ^ k : Nat) : ℚ) / n := by
      have hx : (2 : ℚ) ^ x = 2 ^ y * 2 ^ t * 2 ^ k := by
        rw [← zpow_natCast, ← zpow_add₀ two_ne_zero, ← zpow_add₀ two_ne_zero]
        congr 1
        omega
      rw [hx]
      push_cast
      field_simp
    rw [hvalue]
    exact places_accuracyOfFraction hp
  refine roundWithAccuracy_of_rounds hb hplaces ?_ hr
  rw [targetExponent_eq]
  by_cases hleast : t ≤ -1074
  · omega
  · -- the significand was moved far enough for all bits of the quotient
    have hlong : 2 ^ 52 ≤ m * 2 ^ k / n := by
      rw [Nat.le_div_iff_mul_le hp]
      calc 2 ^ 52 * n ≤ 2 ^ 52 * 2 ^ (n.log2 + 1) :=
            Nat.mul_le_mul_left _ (Nat.le_of_lt Nat.lt_log2_self)
        _ = 2 ^ (n.log2 + 53) := by rw [← pow_add]; congr 1; omega
        _ ≤ 2 ^ (m.log2 + k) := Nat.pow_le_pow_right (by norm_num) (by omega)
        _ = 2 ^ m.log2 * 2 ^ k := pow_add 2 _ _
        _ ≤ m * 2 ^ k := Nat.mul_le_mul_right _ (Nat.log2_self_le ha.ne')
    have := (Nat.le_log2 (by omega)).mpr hlong
    omega

/-! ## Decimals -/

theorem powers_exact : ∀ e : Fin Float.exactlyRepresentablePowersOfTen.size,
    Float.exactlyRepresentablePowersOfTen[e] = (Binary.ofNat (10 ^ e.val)).float ∧
      Binary.Fits (10 ^ e.val) := by
  decide +kernel

theorem toFloat_eq {n : Nat} (hpos : 0 < n) (hn : n < 2 ^ 53) :
    n.toUInt64.toFloat = (Binary.ofNat n).float := by
  have hlog := (Nat.log2_lt (by omega)).mpr hn
  obtain ⟨hb, -⟩ := Binary.canonical_ofNat hpos (by omega)
  have htarget : Format.binary64.targetExponent (totalExponent n 0) = n.log2 - 52 := by
    rw [targetExponent_eq]
    omega
  have hround : UnpackedFloat.normalize .binary64 n 0 .positive = (Binary.ofNat n).unpacked := by
    rw [UnpackedFloat.normalize, compare_gt_iff_gt.mpr (by omega),
      ← Binary.roundWithAccuracy_of_canonical hb]
    have hshift : (0 - ((n.log2 : Int) - 52)).toNat = 52 - n.log2 := by omega
    have hplace : (0 : Int) - (52 - n.log2 : Nat) = n.log2 - 52 := by omega
    simp only [UnpackedFloat.round, Int.toNat_natCast, htarget, decreaseExponent, hshift, hplace,
      Binary.ofNat, show n.log2 - 52 = 0 by omega]
    rfl
  have hu : n.toUInt64.toNat = n := by
    simp only [Nat.toUInt64, UInt64.toNat_ofNat']
    omega
  show Float.ofModel
    (.pack (UnpackedFloat.normalize .binary64 (n.toUInt64.toNat : Int) 0 .positive)) = _
  rw [hu, hround]
  rfl

theorem float_mul_float {a p b : Binary} (ha : a.Canonical) (hp : p.Canonical) (hb : b.Normal)
    (hlong : 2 ^ 52 ≤ a.significand) (hr : b.Rounds (a.value * p.value)) :
    a.float * p.float = b.float := by
  show Float.ofModel (.pack (mul .binary64 a.float.toModel.unpack p.float.toModel.unpack)) = _
  have hprod : 2 ^ 52 ≤ a.significand * p.significand :=
    le_trans hlong (Nat.le_mul_of_pos_right _ hp.positive)
  rw [ha.unpack_float, hp.unpack_float, mul_of_rounds hb ha.positive hp.positive hprod hr]
  rfl

theorem float_div_float {a p b : Binary} (ha : a.Canonical) (hp : p.Canonical) (hb : b.Normal)
    (hr : b.Rounds (a.value / p.value)) : a.float / p.float = b.float := by
  show Float.ofModel (.pack (div .binary64 a.float.toModel.unpack p.float.toModel.unpack)) = _
  rw [ha.unpack_float, hp.unpack_float, div_of_rounds hb ha.positive hp.positive hr]
  rfl

/-- The long way. -/
theorem unpacked_ofScientific {b : Binary} (hb : b.Normal) {c : Nat} {i : Int} (hc : 0 < c)
    (hsmall : -(2048 + c.log2) ≤ i) (hlarge : i ≤ 2048) (hr : b.Rounds (c * 10 ^ i)) :
    UnpackedFloat.ofScientific .binary64 c i = b.unpacked := by
  have hexp : (2 : Int) ^ Format.binary64.exponentBits = 2048 := by norm_num
  unfold UnpackedFloat.ofScientific
  rw [dif_neg hc.ne', hexp, if_neg (by omega), if_neg (by omega)]
  have hten : ∀ k : Nat, 0 < (⟨10 ^ k, 0⟩ : Binary).significand := fun k =>
    Nat.pow_pos (by norm_num)
  by_cases hi : 0 ≤ i
  · obtain ⟨k, rfl⟩ := Int.eq_ofNat_of_zero_le hi
    have hmoved : 0 < (⟨c * 2 ^ 53, -53⟩ : Binary).significand := by positivity
    have hlong : 2 ^ 52 ≤ c * 2 ^ 53 * 10 ^ k := by
      have := Nat.mul_le_mul hc (Nat.one_le_pow k 10 (by norm_num))
      nlinarith
    have hvalue : (⟨c * 2 ^ 53, -53⟩ : Binary).value * (⟨10 ^ k, 0⟩ : Binary).value =
        c * 10 ^ (k : ℤ) := by
      have hpow : (9007199254740992 : ℚ) * 2 ^ (-53 : ℤ) = 1 := by norm_num
      simp only [Binary.value]
      push_cast
      rw [mul_assoc (c : ℚ), hpow]
      simp
    have h := mul_of_rounds hb hmoved (hten k) hlong (by rw [hvalue]; exact hr)
    rw [Binary.unpacked_eq hmoved, Binary.unpacked_eq (hten k)] at h
    rw [if_pos hi, ← h]
    have hpower : 10 ^ (k : Int).toNat = 10 ^ k := by rw [Int.toNat_natCast]
    exact congrArg₂ (mul .binary64) (Packing.finite_congr rfl (Nat.shiftLeft_eq c 53) rfl)
      (Packing.finite_congr rfl hpower rfl)
  · obtain ⟨k, rfl⟩ : ∃ k : Nat, i = -k := ⟨(-i).toNat, by omega⟩
    have hvalue : (⟨c, 0⟩ : Binary).value / (⟨10 ^ k, 0⟩ : Binary).value = c * 10 ^ (-k : ℤ) := by
      simp [Binary.value, div_eq_mul_inv]
    have h := div_of_rounds (a := ⟨c, 0⟩) hb hc (hten k) (by rw [hvalue]; exact hr)
    rw [Binary.unpacked_eq hc, Binary.unpacked_eq (hten k)] at h
    rw [if_neg hi, ← h]
    have hpower : 10 ^ (-(-k : Int)).toNat = 10 ^ k := by rw [Int.neg_neg, Int.toNat_natCast]
    exact congrArg (div .binary64 _) (Packing.finite_congr rfl hpower rfl)

/-- **A decimal that belongs to a float is read as that float.** -/
theorem ofScientific_of_rounds {b : Binary} (hb : b.Normal) {c : Nat} {i : Int} (hc : 0 < c)
    (hsmall : -(2048 + c.log2) ≤ i) (hlarge : i ≤ 2048) (hr : b.Rounds (c * 10 ^ i)) :
    Float.ofScientific c (i < 0) i.natAbs = b.float := by
  unfold Float.ofScientific
  split
  · -- the short way: a product or a quotient of two floats
    rename_i h
    obtain ⟨hshort, he⟩ := h
    have hlog := (Nat.log2_lt (by omega)).mpr hshort
    obtain ⟨hcan, hlong⟩ := Binary.canonical_ofNat hc (by omega)
    have hcv := Binary.value_ofNat (Binary.fits_of_lt hshort)
    obtain ⟨hpower, hfits⟩ := powers_exact ⟨i.natAbs, by
      show i.natAbs < 23
      omega⟩
    obtain ⟨hpcan, -⟩ := Binary.canonical_ofNat (n := 10 ^ i.natAbs) (by positivity) (by
      have : 10 ^ i.natAbs < 2 ^ 100 :=
        lt_of_le_of_lt (Nat.pow_le_pow_right (by norm_num) he) (by norm_num)
      have := (Nat.log2_lt (by positivity)).mpr this
      omega)
    have hpv := Binary.value_ofNat hfits
    rw [toFloat_eq hc hshort]
    simp only [Fin.getElem_fin] at hpower hpv
    rw [hpower]
    by_cases hi : i < 0
    · obtain ⟨k, rfl⟩ : ∃ k : Nat, i = -k := ⟨i.natAbs, by omega⟩
      rw [if_pos (by simpa using hi)]
      refine float_div_float hcan hpcan hb ?_
      rw [hcv, hpv, div_eq_mul_inv, Int.natAbs_neg, Int.natAbs_natCast]
      push_cast
      rw [← zpow_natCast, ← zpow_neg]
      exact hr
    · obtain ⟨k, rfl⟩ : ∃ k : Nat, i = k := ⟨i.natAbs, by omega⟩
      rw [if_neg (by simp)]
      refine float_mul_float hcan hpcan hb hlong ?_
      rw [hcv, hpv]
      push_cast
      exact hr
  · have hexp : (if decide (i < 0) = true then Int.negOfNat i.natAbs else Int.ofNat i.natAbs) =
        i := by
      by_cases hi : i < 0
      · rw [if_pos (by simpa using hi), Int.negOfNat_eq]
        simp only [Int.ofNat_eq_natCast]
        omega
      · rw [if_neg (by simpa using hi)]
        simp only [Int.ofNat_eq_natCast]
        omega
    show Float.ofModel (.pack (UnpackedFloat.ofScientific .binary64 c _)) = _
    rw [hexp, unpacked_ofScientific hb hc hsmall hlarge hr]
    rfl

/-! ## Decimals out of range -/

/-- What is rounded to a float, with its infinity, is below the first power of ten beyond. -/
theorem beyond_of_rounds {b : Binary} (hb : b.Normal) {q : ℚ} (hr : b.Rounds q)
    (hq : (10 : ℚ) ^ (309 : ℤ) ≤ q) :
    0 < b.significand ∧ Binary.greatestExponent < b.exponent := by
  have hquarter := b.quarter_pos
  have hbelow := hr.below
  rw [Binary.high_eq] at hbelow
  have hshort : (b.significand : ℚ) < 2 ^ 53 := by exact_mod_cast hb.short
  have hexp : Binary.greatestExponent < b.exponent := by
    simp only [Binary.greatestExponent]
    by_contra hle
    have hle : b.quarter ≤ 2 ^ (969 : ℤ) := zpow_le_zpow_right₀ (by norm_num) (by omega)
    have hpow : (2 : ℚ) ^ (56 + 969 : ℤ) ≤ 10 ^ (309 : ℤ) :=
      two_zpow_le_ten_zpow (by norm_num) (by norm_num)
    have hm : 4 * (b.significand : ℚ) + 2 < 2 ^ (56 : ℤ) := by
      norm_num only at hshort ⊢
      linarith
    rw [zpow_add₀ two_ne_zero] at hpow
    refine absurd hq (not_le.mpr ?_)
    calc q ≤ (4 * b.significand + 2) * b.quarter := hbelow
      _ < 2 ^ (56 : ℤ) * b.quarter := mul_lt_mul_of_pos_right hm hquarter
      _ ≤ 2 ^ (56 : ℤ) * 2 ^ (969 : ℤ) := mul_le_mul_of_nonneg_left hle (by positivity)
      _ ≤ 10 ^ (309 : ℤ) := hpow
  refine ⟨?_, hexp⟩
  have hfull := hb.full
  simp only [Binary.greatestExponent, Binary.leastExponent] at hexp hfull
  omega

/-- What is rounded to a positive float is above the first power of ten below. -/
theorem zero_of_rounds {b : Binary} (hb : b.Normal) {q : ℚ} (hr : b.Rounds q)
    (hq : q ≤ (10 : ℚ) ^ (-324 : ℤ)) : b.significand = 0 := by
  by_contra hne
  have hleast := hb.least
  simp only [Binary.leastExponent] at hleast
  have hlow := le_trans b.le_low hr.above
  have hm : (1 : ℚ) ≤ b.significand := by exact_mod_cast Nat.pos_of_ne_zero hne
  have hquarter : (2 : ℚ) ^ (-1076 : ℤ) ≤ b.quarter :=
    zpow_le_zpow_right₀ (by norm_num) (by omega)
  have hpow : (10 : ℚ) ^ (-324 : ℤ) ≤ 2 ^ (-1076 : ℤ) :=
    ten_zpow_le_two_zpow (by norm_num) (by norm_num)
  have hpos : (0 : ℚ) < 2 ^ (-1076 : ℤ) := by positivity
  refine absurd (le_trans hq hpow) (not_le.mpr ?_)
  calc (2 : ℚ) ^ (-1076 : ℤ) < 2 * 2 ^ (-1076 : ℤ) := lt_two_mul_self hpos
    _ ≤ (4 * b.significand - 2) * b.quarter :=
        mul_le_mul (by linarith) hquarter hpos.le (by linarith)
    _ ≤ q := hlow

/-- The estimates of a number's decimal places. -/
theorem places_bounds {c : Nat} (hc : 0 < c) :
    (10 : ℚ) ^ (leastPlaces c : ℤ) ≤ c ∧ (c : ℚ) ≤ 10 ^ (mostPlaces c : ℤ) := by
  have hlow : ((2 ^ c.log2 : Nat) : ℚ) ≤ c := by exact_mod_cast Nat.log2_self_le hc.ne'
  have hhigh : (c : ℚ) ≤ ((2 ^ (c.log2 + 1) : Nat) : ℚ) := by
    exact_mod_cast Nat.lt_log2_self.le
  push_cast at hlow hhigh
  rw [← zpow_natCast] at hlow hhigh
  unfold leastPlaces mostPlaces
  constructor
  · exact le_trans (ten_zpow_le_two_zpow (by omega) (by omega)) hlow
  · exact le_trans hhigh (two_zpow_le_ten_zpow (by omega) (by omega))

/-- **Reading finds the float that a decimal belongs to**, whatever its length. -/
theorem nearestFloat_of_rounds {b : Binary} (hb : b.Normal) {c : Nat} {i : Int} (hc : 0 < c)
    (hr : b.Rounds (c * 10 ^ i)) : nearestFloat c i = b.float := by
  obtain ⟨hleast, hmost⟩ := places_bounds hc
  have hten : (0 : ℚ) < 10 ^ i := by positivity
  unfold nearestFloat
  rw [if_neg hc.ne']
  split
  · rename_i hlarge
    obtain ⟨hpos, hexp⟩ := beyond_of_rounds hb hr (by
      calc (10 : ℚ) ^ (309 : ℤ) ≤ 10 ^ (leastPlaces c + i : ℤ) :=
            zpow_le_zpow_right₀ (by norm_num) (by omega)
        _ = 10 ^ (leastPlaces c : ℤ) * 10 ^ i := zpow_add₀ (by norm_num) _ _
        _ ≤ c * 10 ^ i := mul_le_mul_of_nonneg_right hleast hten.le)
    rw [Binary.float_of_beyond hpos hexp]
  · split
    · rename_i hsmall
      have hzero := zero_of_rounds hb hr (by
        calc (c : ℚ) * 10 ^ i ≤ 10 ^ (mostPlaces c : ℤ) * 10 ^ i :=
              mul_le_mul_of_nonneg_right hmost hten.le
          _ = 10 ^ (mostPlaces c + i : ℤ) := (zpow_add₀ (by norm_num) _ _).symm
          _ ≤ 10 ^ (-324 : ℤ) := zpow_le_zpow_right₀ (by norm_num) (by omega))
      rw [Binary.float_of_zero hzero]
    · rename_i hlarge hsmall
      simp only [leastPlaces, mostPlaces] at hlarge hsmall
      exact ofScientific_of_rounds hb hc (by omega) (by omega) hr

end Honeycomb
