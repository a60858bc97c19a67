import Honeycomb.Setting
import Honeycomb.Proofs.Decimal.Notation
import Honeycomb.Proofs.Decimal.Range
import Honeycomb.Proofs.Json.Number

/-!
# What is left of a value that is shown and read back

A form shows every setting as a text in an input of one line and reads the texts back.

* `isSafe_nearestFloat_iff` — rounding takes no natural number beyond the greatest safe one back.
* `number?_isSome_iff` — the texts that are read as numbers: digits up to the greatest safe number,
  or digits on both sides of a point.
* `number?_shortest_iff` — the floats whose shortest decimal is read back: whole ones up to the
  greatest safe number, and others from a millionth on.
* `Setting.Survives` — the values that are read back unchanged, as `ofTyped_oneLine_shown_iff` says.
-/

set_option autoImplicit false

namespace Honeycomb.Setting

open Text (unit)

/-! ## Safe numbers -/

theorem isSafeFraction_iff {b : Binary} :
    isSafeFraction b = true ↔ ∃ n : Nat, b.value = n ∧ n ≤ greatestSafe := by
  have hvalue : b.value = ((b.significand * 2 ^ b.exponent.toNat : Nat) : ℚ) /
      ((2 ^ (-b.exponent).toNat : Nat) : ℚ) := by
    rw [Binary.value, zpow_eq_div, ← mul_div_assoc]
    push_cast
    rfl
  have hpos : 0 < 2 ^ (-b.exponent).toNat := by positivity
  simp only [isSafeFraction, Nat.pow_eq, Bool.and_eq_true, beq_iff_eq, decide_eq_true_eq]
  generalize b.significand * 2 ^ b.exponent.toNat = scaled at hvalue ⊢
  generalize 2 ^ (-b.exponent).toNat = place at hvalue hpos ⊢
  have hne : (place : ℚ) ≠ 0 := by exact_mod_cast hpos.ne'
  constructor
  · rintro ⟨hwhole, hle⟩
    obtain ⟨n, rfl⟩ := Nat.dvd_of_mod_eq_zero hwhole
    rw [Nat.mul_div_cancel_left n hpos] at hle
    refine ⟨n, ?_, hle⟩
    rw [hvalue, Nat.cast_mul, mul_div_cancel_left₀ _ hne]
  · rintro ⟨n, hn, hle⟩
    rw [hvalue, div_eq_iff hne] at hn
    obtain rfl : scaled = n * place := by exact_mod_cast hn
    exact ⟨Nat.mul_mod_left n place, by rwa [Nat.mul_div_cancel n hpos]⟩

theorem isSafe_float_iff {b : Binary} (hb : b.Normal) :
    isSafe b.float = true ↔ ∃ n : Nat, b.value = n ∧ n ≤ greatestSafe := by
  rcases Nat.eq_zero_or_pos b.significand with h0 | hpos
  · rw [Binary.float_of_zero h0]
    refine iff_of_true (by decide +kernel) ⟨0, ?_, Nat.zero_le _⟩
    rw [Binary.value, h0, Nat.cast_zero, zero_mul]
  by_cases he : b.exponent ≤ Binary.greatestExponent
  · rw [← isSafeFraction_iff, isSafe, (hb.canonical hpos he).unpack_float,
      Binary.unpacked_eq hpos]
  · -- the infinite float is not safe, and neither is so great a number
    rw [Binary.float_of_beyond hpos (by omega)]
    refine iff_of_false (by decide +kernel) ?_
    rintro ⟨n, hn, hle⟩
    have hbeyond := Binary.le_value_of_exponent_pos hb (by
      simp only [Binary.greatestExponent] at he
      omega)
    simp only [greatestSafe, Nat.pow_eq] at hle
    rw [hn] at hbeyond
    have hbeyond : 2 ^ 53 ≤ n := by exact_mod_cast hbeyond
    omega

/-- **Rounding takes no natural number beyond the greatest safe one back.** -/
theorem isSafe_nearestFloat_iff (n : Nat) :
    isSafe (nearestFloat n 0) = true ↔ n ≤ greatestSafe := by
  rcases Nat.eq_zero_or_pos n with rfl | hpos
  · exact iff_of_true (by decide +kernel) (Nat.zero_le _)
  obtain ⟨b, hb, hr, hread⟩ := nearestFloat_spec hpos 0
  rw [zpow_zero, mul_one] at hr
  rw [hread, isSafe_float_iff hb]
  rcases Int.lt_or_le 0 b.exponent with he | he
  · have hbeyond := Binary.le_value_of_exponent_pos hb he
    have hn := Binary.lt_of_rounds_of_exponent_pos hb he hr
    simp only [greatestSafe, Nat.pow_eq]
    refine iff_of_false ?_ (by omega)
    rintro ⟨k, hk, hle⟩
    rw [hk] at hbeyond
    have hbeyond : 2 ^ 53 ≤ k := by exact_mod_cast hbeyond
    omega
  · rw [Binary.value_eq_of_rounds_nat he hr]
    constructor
    · rintro ⟨k, hk, hle⟩
      rwa [show n = k by exact_mod_cast hk]
    · exact fun hle => ⟨n, rfl, hle⟩

/-- A safe natural number is read like a decimal. -/
theorem ofNat_eq_nearestFloat {n : Nat} (hn : n ≤ greatestSafe) :
    Float.ofNat n = nearestFloat n 0 := by
  simp only [greatestSafe, Nat.pow_eq] at hn
  rcases Nat.eq_zero_or_pos n with rfl | hpos
  · decide +kernel
  have hlog := (Nat.log2_lt (k := 53) hpos.ne').mpr (by omega)
  unfold nearestFloat leastPlaces
  rw [if_neg hpos.ne', if_neg (by omega), if_neg (by omega)]
  rfl

/-! ## Typed numbers -/

/-- Digits up to the greatest safe number, or digits on both sides of a point. -/
def Numeral (us : List UInt16) : Prop :=
  (us ≠ [] ∧ (∀ u ∈ us, Digits.isDigit u = true) ∧ Digits.toNat us ≤ greatestSafe) ∨
    ∃ whole fraction, us = whole ++ unit '.' :: fraction ∧ whole ≠ [] ∧ fraction ≠ [] ∧
      (∀ u ∈ whole, Digits.isDigit u = true) ∧ ∀ u ∈ fraction, Digits.isDigit u = true

theorem number?_of_digits {us : List UInt16} (hne : us ≠ [])
    (hd : ∀ u ∈ us, Digits.isDigit u = true) :
    number? us = if Digits.toNat us ≤ greatestSafe then some (Float.ofNat (Digits.toNat us))
      else none := by
  have htake : Digits.take us = (us, []) := by
    have h : Digits.take (us ++ []) = (us, []) := Digits.take_append hd nofun
    rwa [List.append_nil] at h
  unfold number?
  rw [htake]
  dsimp only
  rw [if_neg (by simpa using hne)]
  by_cases hsafe : Digits.toNat us ≤ greatestSafe
  · rw [if_pos ((isSafe_nearestFloat_iff _).mpr hsafe), if_pos hsafe, ofNat_eq_nearestFloat hsafe]
  · rw [if_neg (mt (isSafe_nearestFloat_iff _).mp hsafe), if_neg hsafe]

theorem number?_of_mark {whole rest : List UInt16} {mark : UInt16}
    (hd : ∀ u ∈ whole, Digits.isDigit u = true) (hmark : Digits.isDigit mark = false) :
    number? (whole ++ mark :: rest) =
      if whole ≠ [] ∧ mark = unit '.' ∧ rest ≠ [] ∧ rest.all Digits.isDigit = true then
        some (floatOfParts whole rest 0)
      else none := by
  have htake : Digits.take (whole ++ mark :: rest) = (whole, mark :: rest) :=
    Digits.take_append hd (by rintro u more ⟨⟩; exact hmark)
  unfold number?
  rw [htake]
  dsimp only
  by_cases hw : whole = []
  · simp [hw]
  · simp [hw, and_assoc]

theorem isDigit_point : Digits.isDigit (unit '.') = false := by decide

/-- **The texts that are read as numbers.** -/
theorem number?_isSome_iff {us : List UInt16} : (number? us).isSome = true ↔ Numeral us := by
  constructor
  · intro h
    obtain ⟨hsplit, hd, hstop⟩ := Digits.take_spec us
    generalize (Digits.take us).1 = whole at hsplit hd
    generalize (Digits.take us).2 = rest at hsplit hstop
    subst hsplit
    cases rest with
    | nil =>
      rw [List.append_nil] at h ⊢
      by_cases hw : whole = []
      · rw [hw] at h
        cases h
      · rw [number?_of_digits hw hd] at h
        split at h
        · rename_i hsafe
          exact .inl ⟨hw, hd, hsafe⟩
        · cases h
    | cons mark rest =>
      rw [number?_of_mark hd (hstop mark rest rfl)] at h
      split at h
      · rename_i hpoint
        obtain ⟨hw, rfl, hr, hrd⟩ := hpoint
        exact .inr ⟨whole, rest, rfl, hw, hr, hd, List.all_eq_true.mp hrd⟩
      · cases h
  · rintro (⟨hne, hd, hsafe⟩ | ⟨whole, fraction, rfl, hw, hf, hwd, hfd⟩)
    · rw [number?_of_digits hne hd, if_pos hsafe]
      rfl
    · have hall : fraction.all Digits.isDigit = true := List.all_eq_true.mpr hfd
      rw [number?_of_mark hwd isDigit_point, if_pos ⟨hw, rfl, hf, hall⟩]
      rfl

/-! ## Decimals that are read back -/

theorem number?_units_of_tiny {d : Decimal}
    (hp : Decimal.positionalLimit < d.point ∨ d.point ≤ Decimal.leadingZeroLimit) :
    number? d.units = none := by
  obtain ⟨u, more, hu, h | ⟨rest, h⟩⟩ := Decimal.units_of_tiny hp
  all_goals have hd : ∀ v ∈ [u], Digits.isDigit v = true := by simpa using hu
  · rw [h, number?_of_mark hd (by decide), if_neg]
    rintro ⟨-, hmark, -⟩
    exact absurd hmark (by decide)
  · rw [h, number?_of_mark hd isDigit_point, if_neg]
    rintro ⟨-, -, -, hall⟩
    exact absurd (List.all_eq_true.mp hall (unit 'e') (by simp)) (by decide)

theorem number?_units_of_whole {d : Decimal} (hc : 0 < d.coefficient) (he : 0 ≤ d.exponent) :
    number? d.units =
      if d.coefficient * 10 ^ d.exponent.toNat ≤ greatestSafe then
        some (Float.ofNat (d.coefficient * 10 ^ d.exponent.toNat))
      else none := by
  by_cases hp : d.point ≤ Decimal.positionalLimit
  · have hne : Digits.ofNat d.coefficient ++ Decimal.zeros d.exponent.toNat ≠ [] := by
      simp [Digits.ofNat_ne_nil]
    have hd : ∀ u ∈ Digits.ofNat d.coefficient ++ Decimal.zeros d.exponent.toNat,
        Digits.isDigit u = true := by
      intro u hu
      rcases List.mem_append.mp hu with hu | hu
      · exact Digits.isDigit_of_mem_ofNat _ u hu
      · exact Digits.isDigit_of_mem_zeros hu
    have hvalue : Digits.toNat (Digits.ofNat d.coefficient ++ Decimal.zeros d.exponent.toNat) =
        d.coefficient * 10 ^ d.exponent.toNat := by
      rw [Digits.toNat_append, Digits.toNat_ofNat, Decimal.zeros, Digits.toNat_zeros,
        List.length_replicate, Nat.add_zero]
    rw [Decimal.units_of_whole he hp, number?_of_digits hne hd, hvalue]
  · -- too great to be written out, and too great to be safe
    obtain ⟨hlow, -⟩ := Decimal.value_bounds hc
    have hlarge : (10 : ℚ) ^ (21 : ℤ) ≤ d.coefficient * 10 ^ d.exponent := by
      refine le_trans (zpow_le_zpow_right₀ (by norm_num) ?_) hlow
      simp only [Decimal.positionalLimit] at hp
      omega
    obtain ⟨k, hk⟩ := Int.eq_ofNat_of_zero_le he
    rw [hk, zpow_natCast] at hlarge
    have hlarge : 10 ^ 21 ≤ d.coefficient * 10 ^ k := by exact_mod_cast hlarge
    rw [hk, Int.toNat_natCast, if_neg (by simp only [greatestSafe, Nat.pow_eq]; omega)]
    exact number?_units_of_tiny (.inl (by omega))

theorem number?_units_of_fraction {d : Decimal} (he : d.exponent < 0)
    (hp : Decimal.leadingZeroLimit < d.point) (hp' : d.point ≤ Decimal.positionalLimit) :
    number? d.units = some (nearestFloat d.coefficient d.exponent) := by
  have hdigits := Digits.isDigit_of_mem_ofNat d.coefficient
  have hlen := Decimal.length_pos d
  have hpoint : d.point = (Digits.ofNat d.coefficient).length + d.exponent := rfl
  rcases Int.lt_or_le 0 d.point with hpos | hneg
  · -- the point stands among the digits
    have hw : (Digits.ofNat d.coefficient).take d.point.toNat ≠ [] := by
      rw [← List.length_pos_iff, List.length_take]
      omega
    have hf : (Digits.ofNat d.coefficient).drop d.point.toNat ≠ [] := by
      rw [← List.length_pos_iff, List.length_drop]
      omega
    have hfd : ((Digits.ofNat d.coefficient).drop d.point.toNat).all Digits.isDigit = true :=
      List.all_eq_true.mpr fun u hu => hdigits u (List.mem_of_mem_drop hu)
    rw [Decimal.units_of_inner he hpos hp', number?_of_mark
      (fun u hu => hdigits u (List.mem_of_mem_take hu)) isDigit_point,
      if_pos ⟨hw, rfl, hf, hfd⟩, floatOfParts, List.take_append_drop, Digits.toNat_ofNat,
      List.length_drop]
    congr 2
    omega
  · -- zeros stand between the point and the digits
    have hvalue : Digits.toNat ([unit '0'] ++ (Decimal.zeros (-d.point).toNat ++
        Digits.ofNat d.coefficient)) = d.coefficient := by
      rw [Digits.toNat_append, Digits.toNat_append, Decimal.zeros, Digits.toNat_zeros,
        Digits.toNat_ofNat, show Digits.toNat [unit '0'] = 0 by decide]
      simp
    have hfd : (Decimal.zeros (-d.point).toNat ++ Digits.ofNat d.coefficient).all
        Digits.isDigit = true := by
      refine List.all_eq_true.mpr fun u hu => ?_
      rcases List.mem_append.mp hu with hu | hu
      · exact Digits.isDigit_of_mem_zeros hu
      · exact hdigits u hu
    have hzero : ∀ u ∈ [unit '0'], Digits.isDigit u = true := by
      intro u hu
      rw [List.mem_singleton.mp hu]
      decide
    rw [Decimal.units_of_small hp hneg, number?_of_mark hzero isDigit_point,
      if_pos ⟨by simp, rfl, by simp [Digits.ofNat_ne_nil], hfd⟩, floatOfParts, hvalue,
      List.length_append, Decimal.zeros, List.length_replicate]
    congr 2
    omega

/-! ## Floats that are read back -/

/-- The float nearest to a millionth. -/
def millionth : Binary := ⟨4722366482869645, -72⟩

theorem canonical_millionth : millionth.Canonical := by
  refine ⟨?_, ?_, ?_, ?_, .inl ?_⟩ <;>
    simp [millionth, Binary.leastExponent, Binary.greatestExponent]

theorem shortest_millionth : millionth.shortest = ⟨1, -6⟩ := by decide +kernel

/-- A float is not below a millionth exactly if its shortest decimal is not. -/
theorem millionth_le_iff {b : Binary} (hb : b.Canonical) :
    millionth.value ≤ b.value ↔ (10 : ℚ) ^ (-6 : ℤ) ≤ b.shortest.value := by
  have hmillionth : millionth.Rounds (10 ^ (-6 : ℤ)) := by
    have h := (Binary.shortest_spec canonical_millionth).1
    rw [shortest_millionth, Decimal.value] at h
    simpa using h
  have hrounds := (Binary.shortest_spec hb).1
  rcases lt_trichotomy millionth.value b.value with hlt | heq | hgt
  · have hle := Binary.high_le_low canonical_millionth.normal hb.normal hlt
    refine iff_of_true hlt.le ?_
    exact le_trans hmillionth.below (le_trans hle hrounds.above)
  · refine iff_of_true heq.le ?_
    rw [← Binary.eq_of_value_eq canonical_millionth.normal hb.normal heq, shortest_millionth,
      Decimal.value]
    simp
  · have hle := Binary.high_le_low hb.normal canonical_millionth.normal hgt
    refine iff_of_false (not_le.mpr hgt) (not_le.mpr ?_)
    have hlow : millionth.low < 10 ^ (-6 : ℤ) := by
      rw [Binary.low_eq_of_wide canonical_millionth.positive (by decide), Binary.quarter, millionth]
      norm_num
    exact lt_of_le_of_lt (le_trans hrounds.below hle) hlow

/-- The floats that a form reads back: the whole ones up to the greatest safe number, and of the
others those from a millionth on. -/
def Plain (b : Binary) : Prop :=
  (b.Whole ∧ b.value ≤ greatestSafe) ∨ (¬ b.Whole ∧ millionth.value ≤ b.value)

theorem number?_shortest_of_whole {b : Binary} (hb : b.Canonical) (hw : b.Whole) :
    (b.value ≤ greatestSafe → number? b.shortest.units = some b.float) ∧
      (¬ b.value ≤ greatestSafe → number? b.shortest.units = none) := by
  obtain ⟨hrounds, hpos, -, -⟩ := Binary.shortest_spec hb
  have he := (Binary.shortest_exponent_nonneg_iff hb).mpr hw
  rw [number?_units_of_whole hpos he]
  have hnat : b.Rounds ((b.shortest.coefficient * 10 ^ b.shortest.exponent.toNat : Nat) : ℚ) := by
    rw [Decimal.value, zpow_eq_div, show (-b.shortest.exponent).toNat = 0 by omega] at hrounds
    push_cast
    simpa using hrounds
  have hnpos : 0 < b.shortest.coefficient * 10 ^ b.shortest.exponent.toNat := by positivity
  generalize b.shortest.coefficient * 10 ^ b.shortest.exponent.toNat = n at hnat hnpos
  rcases Int.lt_or_le 0 b.exponent with hexp | hexp
  · have hbeyond := Binary.le_value_of_exponent_pos hb.normal hexp
    have hn := Binary.lt_of_rounds_of_exponent_pos hb.normal hexp hnat
    refine ⟨fun h => ?_, fun _ => if_neg (by simp only [greatestSafe, Nat.pow_eq]; omega)⟩
    simp only [greatestSafe, Nat.pow_eq] at h
    norm_num at h hbeyond
    linarith
  · have hvalue := Binary.value_eq_of_rounds_nat hexp hnat
    rw [hvalue, Nat.cast_le]
    refine ⟨fun h => ?_, fun h => if_neg h⟩
    rw [if_pos h]
    have hread := ofScientific_of_rounds (i := 0) hb.normal hnpos (by omega) (by norm_num)
      (by simpa using hnat)
    exact congrArg some hread

theorem number?_shortest_of_fraction {b : Binary} (hb : b.Canonical) (hw : ¬ b.Whole) :
    (millionth.value ≤ b.value → number? b.shortest.units = some b.float) ∧
      (¬ millionth.value ≤ b.value → number? b.shortest.units = none) := by
  obtain ⟨hrounds, hpos, -, -⟩ := Binary.shortest_spec hb
  obtain ⟨hlow, hhigh⟩ := Decimal.value_bounds hpos
  have he : b.shortest.exponent < 0 := by
    by_contra h
    exact hw ((Binary.shortest_exponent_nonneg_iff hb).mp (by omega))
  have hone : (1 : ℚ) < 10 := by norm_num
  rw [millionth_le_iff hb]
  constructor
  · intro h
    have hp : Decimal.leadingZeroLimit < b.shortest.point := by
      exact (zpow_lt_zpow_iff_right₀ hone).mp (lt_of_le_of_lt h hhigh)
    have hp' : b.shortest.point ≤ Decimal.positionalLimit := by
      have hexp : b.exponent ≤ 0 := by
        by_contra hexp
        exact hw (Binary.whole_of_exponent_nonneg (by omega))
      have hvalue := Binary.value_lt_of_exponent_nonpos hb.normal hexp
      have hbelow := hrounds.below
      rw [Binary.high_eq] at hbelow
      rw [Binary.value_eq] at hvalue
      have hquarter : b.quarter ≤ 2 ^ (0 : ℤ) := zpow_le_zpow_right₀ (by norm_num) (by omega)
      have hlt : (10 : ℚ) ^ (b.shortest.point - 1) < 10 ^ (21 : ℤ) := by
        norm_num only at hvalue hquarter ⊢
        linarith
      have := (zpow_lt_zpow_iff_right₀ hone).mp hlt
      simp only [Decimal.positionalLimit]
      omega
    rw [number?_units_of_fraction he hp hp', Binary.nearestFloat_shortest hb]
  · intro h
    refine number?_units_of_tiny (.inr ?_)
    have hlt := (zpow_lt_zpow_iff_right₀ hone).mp (lt_of_le_of_lt hlow (not_le.mp h))
    simp only [Decimal.leadingZeroLimit]
    omega

theorem number?_shortest_iff {b : Binary} (hb : b.Canonical) :
    number? b.shortest.units = some b.float ↔ Plain b := by
  have hne : (none : Option Float) ≠ some b.float := nofun
  by_cases hw : b.Whole
  · obtain ⟨hyes, hno⟩ := number?_shortest_of_whole hb hw
    by_cases hsafe : b.value ≤ greatestSafe
    · exact iff_of_true (hyes hsafe) (.inl ⟨hw, hsafe⟩)
    · rw [hno hsafe]
      refine iff_of_false hne ?_
      rintro (⟨-, h⟩ | ⟨h, -⟩)
      · exact hsafe h
      · exact h hw
  · obtain ⟨hyes, hno⟩ := number?_shortest_of_fraction hb hw
    by_cases hlarge : millionth.value ≤ b.value
    · exact iff_of_true (hyes hlarge) (.inr ⟨hw, hlarge⟩)
    · rw [hno hlarge]
      refine iff_of_false hne ?_
      rintro (⟨h, -⟩ | ⟨-, h⟩)
      · exact hw h
      · exact hlarge h

/-! ## Values that are read back -/

/-- **The values that a form reads back unchanged.** -/
def Survives : Setting → Prop
  | .flag _ => True
  | .text t =>
    (unit '\n' ∉ t.units ∧ unit '\r' ∉ t.units) ∧ t ≠ "true" ∧ t ≠ "false" ∧ ¬ Numeral t.units
  | .number x => x = 0 ∨ ∃ b : Binary, b.Canonical ∧ x = b.float ∧ Plain b

theorem ofTyped_eq_number_iff {t : Text} {x : Float} :
    ofTyped t = .number x ↔ number? t.units = some x := by
  have htrue : number? (Text.ofString "true").units = none := by decide
  have hfalse : number? (Text.ofString "false").units = none := by decide
  unfold ofTyped
  split
  · rename_i h
    rw [h, htrue]
    exact iff_of_false nofun nofun
  · split
    · rename_i h
      rw [h, hfalse]
      exact iff_of_false nofun nofun
    · split
      · rename_i y h
        rw [h]
        simp
      · rename_i h
        rw [h]
        exact iff_of_false nofun nofun

theorem ofTyped_eq_self_iff {t : Text} :
    ofTyped t = .text t ↔ t ≠ "true" ∧ t ≠ "false" ∧ ¬ Numeral t.units := by
  rw [← number?_isSome_iff]
  unfold ofTyped
  split
  · rename_i h
    exact iff_of_false nofun (fun hn => hn.1 h)
  · rename_i htrue
    split
    · rename_i h
      exact iff_of_false nofun (fun hn => hn.2.1 h)
    · rename_i hfalse
      split
      · rename_i y h
        exact iff_of_false nofun (fun hn => hn.2.2 (by rw [h]; rfl))
      · rename_i h
        exact iff_of_true rfl ⟨htrue, hfalse, by rw [h]; nofun⟩

theorem survives_float_iff {b : Binary} (hb : b.Canonical) :
    Survives (.number b.float) ↔ Plain b := by
  constructor
  · rintro (h | ⟨a, ha, h, hplain⟩)
    · have hu := hb.unpack_float
      rw [h, Binary.unpacked_eq hb.positive] at hu
      cases hu
    · rw [hb.float_inj ha h]
      exact hplain
  · intro h
    exact .inr ⟨b, hb, rfl, h⟩

open Float.Model.UnpackedFloat in
/-- Whatever is neither zero nor positive and finite does not survive. -/
theorem not_survives_of_unpack {x : Float} (hzero : x.toModel.unpack ≠ .zero .positive)
    (hfinite : ∀ m e h, x.toModel.unpack ≠ .finite .positive m e h) :
    ¬ Survives (.number x) := by
  rintro (h | ⟨b, hb, h, -⟩)
  · exact hzero (by rw [h]; rfl)
  · exact hfinite _ _ hb.positive (by rw [h, hb.unpack_float, Binary.unpacked_eq hb.positive])

/-- The text of a number is read back exactly if the number survives. -/
theorem number?_numberText_iff {x : Float} :
    number? (numberText x).units = some x ↔ Survives (.number x) := by
  show number? (numberUnits x) = some x ↔ _
  have hnone : ∀ us, number? us = none → ¬ Survives (.number x) →
      (number? us = some x ↔ Survives (.number x)) := by
    intro us hus hx
    rw [hus]
    exact iff_of_false nofun hx
  unfold numberUnits
  split
  · rename_i h
    exact hnone _ (by decide) (not_survives_of_unpack (by rw [h]; nofun) (by rw [h]; nofun))
  · rename_i h
    exact hnone _ (by decide) (not_survives_of_unpack (by rw [h]; nofun) (by rw [h]; nofun))
  · rename_i h
    exact hnone _ (by decide) (not_survives_of_unpack (by rw [h]; nofun) (by rw [h]; nofun))
  · -- both zeros are read as the positive one
    rename_i s h
    have hzero : number? [unit '0'] = some 0 := by decide +kernel
    rw [hzero, Option.some.injEq]
    constructor
    · rintro rfl
      exact .inl rfl
    · intro hx
      by_contra hne
      refine not_survives_of_unpack ?_ (by rw [h]; nofun) hx
      rintro hpos
      refine hne ?_
      have hx : x = Float.ofModel (.pack x.toModel.unpack) := by rw [Packing.pack_unpack]
      rw [hx, hpos]
      rfl
  · rename_i m e hm h
    have hb := Packing.canonical_of_unpack h
    rw [← Binary.float_of_unpack h, survives_float_iff hb]
    exact number?_shortest_iff hb
  · rename_i m e hm h
    have hminus : number? (unit '-' :: (Binary.shortest ⟨m, e⟩).units) = none := by
      rw [← List.nil_append (unit '-' :: _), number?_of_mark (by simp) (by decide),
        if_neg (fun h => h.1 rfl)]
    exact hnone _ hminus (not_survives_of_unpack (by rw [h]; nofun) (by rw [h]; nofun))

/-- What is read as a text is this text. -/
theorem eq_of_ofTyped_eq_text {s t : Text} (h : ofTyped s = .text t) : s = t := by
  unfold ofTyped at h
  split at h
  · cases h
  · split at h
    · cases h
    · split at h <;> cases h
      rfl

/-! ### One line -/

theorem oneLine_eq_self_iff {t : Text} :
    t.oneLine = t ↔ unit '\n' ∉ t.units ∧ unit '\r' ∉ t.units := by
  rw [Text.ext_iff, Text.oneLine, List.filter_eq_self]
  simp only [Text.isBreak, Bool.not_eq_true', Bool.or_eq_false_iff, beq_eq_false_iff_ne]
  constructor
  · intro h
    exact ⟨fun hn => (h _ hn).1 rfl, fun hr => (h _ hr).2 rfl⟩
  · rintro ⟨hn, hr⟩ u hu
    exact ⟨fun h => hn (h ▸ hu), fun h => hr (h ▸ hu)⟩

theorem oneLine_numberText (x : Float) : (numberText x).oneLine = numberText x := by
  have hdigits : ∀ u, Digits.isDigit u = true → (!Text.isBreak u) = true := by
    intro u hu
    rw [Bool.not_eq_true', Text.isBreak, Bool.or_eq_false_iff, beq_eq_false_iff_ne,
      beq_eq_false_iff_ne]
    constructor <;> rintro rfl <;> exact absurd hu (by decide)
  have hmarks : [unit '.', unit 'e', unit '+', unit '-'].all (!Text.isBreak ·) = true := by decide
  have hwords : ∀ word ∈ [(.ofString "NaN" : Text), "Infinity", "-Infinity"],
      word.units.all (!Text.isBreak ·) = true := by
    decide
  rw [Text.ext_iff, Text.oneLine, List.filter_eq_self]
  exact Json.forall_mem_numberText hdigits (List.all_eq_true.mp hmarks)
    (fun word hword => List.all_eq_true.mp (hwords word hword)) x

/-- **A value is read back from an input unchanged exactly if it survives.** -/
theorem ofTyped_oneLine_shown_iff (v : Setting) : ofTyped v.shown.oneLine = v ↔ Survives v := by
  cases v with
  | text t =>
    show ofTyped t.oneLine = .text t ↔ _
    rw [Survives, ← oneLine_eq_self_iff, ← ofTyped_eq_self_iff]
    constructor
    · intro h
      have hline := eq_of_ofTyped_eq_text h
      rw [hline] at h
      exact ⟨hline, h⟩
    · rintro ⟨hline, h⟩
      rw [hline, h]
  | number x =>
    show ofTyped (numberText x).oneLine = .number x ↔ _
    rw [oneLine_numberText]
    exact ofTyped_eq_number_iff.trans number?_numberText_iff
  | flag b =>
    refine iff_of_true ?_ trivial
    cases b <;> decide

example : ofTyped (Setting.number (-1)).shown.oneLine = .text "-1" := by decide +kernel

example : ofTyped (Setting.text "1\n2").shown.oneLine = .number 12 := by decide +kernel

end Honeycomb.Setting
