import Honeycomb.Proofs.Decimal.Correct
import Honeycomb.Proofs.Setting

/-!
# What typed text stands for

* `Setting.IsDigits`, `Setting.Pointed` — the two forms of a number: digits, and digits on both
  sides of a point.
* `Setting.exact_nearestFloat` — a safe natural number is read as itself.
* `Setting.ofTyped_spec` — what every text is read as: a flag, a natural number exactly or not at
  all, a decimal rounded to the nearest float, or itself.
-/

set_option autoImplicit false

namespace Honeycomb.Setting

open Text (unit)

/-- One digit or more, and nothing else. -/
def IsDigits (us : List UInt16) : Prop := us ≠ [] ∧ ∀ u ∈ us, Digits.isDigit u = true

/-- Digits, one point, digits. -/
structure Pointed (t : Text) (whole fraction : List UInt16) : Prop where
  units_eq : t.units = whole ++ unit '.' :: fraction
  before : IsDigits whole
  behind : IsDigits fraction

theorem numeral_iff {t : Text} :
    Numeral t.units ↔ (IsDigits t.units ∧ Digits.toNat t.units ≤ greatestSafe) ∨
      ∃ whole fraction, Pointed t whole fraction := by
  refine or_congr and_assoc.symm ⟨?_, ?_⟩
  · rintro ⟨whole, fraction, hunits, hw, hf, hwd, hfd⟩
    exact ⟨whole, fraction, hunits, ⟨hw, hwd⟩, ⟨hf, hfd⟩⟩
  · rintro ⟨whole, fraction, hunits, ⟨hw, hwd⟩, ⟨hf, hfd⟩⟩
    exact ⟨whole, fraction, hunits, hw, hf, hwd, hfd⟩

/-! ## Flags -/

theorem ofTyped_eq_true_iff {t : Text} : ofTyped t = .flag true ↔ t = "true" := by
  unfold ofTyped
  split
  · rename_i h
    exact iff_of_true rfl h
  · rename_i h
    refine iff_of_false ?_ h
    split
    · nofun
    · split <;> nofun

theorem ofTyped_eq_false_iff {t : Text} : ofTyped t = .flag false ↔ t = "false" := by
  unfold ofTyped
  split
  · rename_i h
    rw [h]
    exact iff_of_false nofun (by decide)
  · split
    · rename_i h
      exact iff_of_true rfl h
    · rename_i h
      refine iff_of_false ?_ h
      split <;> nofun

/-! ## Numbers -/

/-- **A safe natural number is read as itself.** -/
theorem exact_nearestFloat {n : Nat} (h : n ≤ greatestSafe) : Exact n (nearestFloat n 0) := by
  rcases Nat.eq_zero_or_pos n with rfl | hpos
  · exact ⟨⟨0, 0⟩, rfl, by rw [Binary.value, Nat.cast_zero, zero_mul]⟩
  obtain ⟨b, hb, hr, hread⟩ := nearestFloat_spec hpos 0
  rw [zpow_zero, mul_one] at hr
  have he : b.exponent ≤ 0 := by
    by_contra he
    have hbeyond := Binary.lt_of_rounds_of_exponent_pos hb (by omega) hr
    simp only [greatestSafe, Nat.pow_eq] at h
    omega
  refine ⟨b, ?_, Binary.value_eq_of_rounds_nat he hr⟩
  rw [hread]
  exact hb.unpack_float (le_trans he (by decide))

/-- Digits are read as their number exactly, or not as a number at all. -/
theorem ofTyped_of_digits {t : Text} (h : IsDigits t.units) :
    (Digits.toNat t.units ≤ greatestSafe →
        ∃ x, ofTyped t = .number x ∧ Exact (Digits.toNat t.units) x) ∧
      (greatestSafe < Digits.toNat t.units → ofTyped t = .text t) := by
  have hnumber := number?_of_digits h.1 h.2
  constructor
  · intro hsafe
    rw [if_pos hsafe, ofNat_eq_nearestFloat hsafe] at hnumber
    exact ⟨_, ofTyped_eq_number_iff.mpr hnumber, exact_nearestFloat hsafe⟩
  · intro hbeyond
    rw [if_neg (by omega)] at hnumber
    refine ofTyped_eq_self_iff.mpr ⟨?_, ?_, ?_⟩
    · rintro rfl
      exact absurd (h.2 (unit 't') (by decide)) (by decide)
    · rintro rfl
      exact absurd (h.2 (unit 'f') (by decide)) (by decide)
    · rw [← number?_isSome_iff, hnumber]
      nofun

/-- Digits on both sides of a point are read as what their number is rounded to. -/
theorem ofTyped_of_pointed {t : Text} {whole fraction : List UInt16}
    (h : Pointed t whole fraction) :
    ∃ x, ofTyped t = .number x ∧
      Rounded (Digits.toNat (whole ++ fraction) / 10 ^ fraction.length) x := by
  refine ⟨floatOfParts whole fraction 0, ofTyped_eq_number_iff.mpr ?_, ?_⟩
  · rw [h.units_eq, number?_of_mark h.before.2 isDigit_point,
      if_pos ⟨h.before.1, rfl, h.behind.1, List.all_eq_true.mpr h.behind.2⟩]
  · have hread := nearestFloat_rounded (Digits.toNat (whole ++ fraction)) (0 - fraction.length)
    rw [Int.zero_sub, zpow_neg, zpow_natCast, ← div_eq_mul_inv] at hread
    rwa [floatOfParts, Int.zero_sub]

/-! ## Every text -/

/-- **What typed text stands for.**  The two words are the flags.  Digits are the number that they
spell if it is a safe one, however long they are, and otherwise stay text.  Digits on both sides of
a point are the float that their number is rounded to, and nothing else but digits is a number.
Every other text stays as it is. -/
theorem ofTyped_spec (t : Text) :
    ((ofTyped t = .flag true ↔ t = "true") ∧ (ofTyped t = .flag false ↔ t = "false")) ∧
      (IsDigits t.units →
        (Digits.toNat t.units ≤ greatestSafe →
            ∃ x, ofTyped t = .number x ∧ Exact (Digits.toNat t.units) x) ∧
          (greatestSafe < Digits.toNat t.units → ofTyped t = .text t)) ∧
      (∀ whole fraction, Pointed t whole fraction →
        (∃ x, ofTyped t = .number x) ∧
          ∀ x, ofTyped t = .number x ↔
            Rounded (Digits.toNat (whole ++ fraction) / 10 ^ fraction.length) x) ∧
      (∀ x, ofTyped t = .number x →
        IsDigits t.units ∨ ∃ whole fraction, Pointed t whole fraction) ∧
      (t ≠ "true" → t ≠ "false" → ¬ IsDigits t.units →
        (¬ ∃ whole fraction, Pointed t whole fraction) → ofTyped t = .text t) := by
  refine ⟨⟨ofTyped_eq_true_iff, ofTyped_eq_false_iff⟩, ofTyped_of_digits, ?_, ?_, ?_⟩
  · intro whole fraction hpointed
    obtain ⟨x, hx, hrounded⟩ := ofTyped_of_pointed hpointed
    refine ⟨⟨x, hx⟩, fun y => ⟨fun hy => ?_, fun hy => ?_⟩⟩
    · obtain rfl : x = y := Setting.number.inj (hx.symm.trans hy)
      exact hrounded
    · rw [hy.unique hrounded]
      exact hx
  · intro x hx
    have hnumeral : Numeral t.units :=
      number?_isSome_iff.mp (by rw [ofTyped_eq_number_iff.mp hx]; rfl)
    exact (numeral_iff.mp hnumeral).imp_left And.left
  · intro htrue hfalse hdigits hpointed
    refine ofTyped_eq_self_iff.mpr ⟨htrue, hfalse, fun hnumeral => ?_⟩
    rcases numeral_iff.mp hnumeral with ⟨h, -⟩ | h
    · exact hdigits h
    · exact hpointed h

/-- The first number that no float is, behind zeros: rounding would make it the one below. -/
theorem ofTyped_first_unsafe_odd :
    IsDigits (Text.ofString "009007199254740993").units ∧
      ofTyped "009007199254740993" = .text "009007199254740993" := by
  have hdigits : IsDigits (Text.ofString "009007199254740993").units :=
    ⟨nofun, List.all_eq_true.mp (by decide)⟩
  exact ⟨hdigits, ((ofTyped_spec "009007199254740993").2.1 hdigits).2 (by decide)⟩

end Honeycomb.Setting
