import Honeycomb.Proofs.Decimal.Notation

/-!
# The text of a decimal taken apart

* `Decimal.Parts` — a decimal as it is written: digits before the point, digits behind it, and an
  exponent.
* `Parts.Of` — the parts of the text of a decimal: they stand for the same number.
* `exists_parts` — the text of every decimal has parts, whatever its size; `mem_units` says which
  units it holds.
-/

set_option autoImplicit false

namespace Honeycomb

open Text (unit)

/-- A numeral does not start with a zero. -/
theorem Digits.ofNat_eq_cons {n : Nat} (h : 0 < n) :
    ∃ u us, ofNat n = u :: us ∧ u ≠ unit '0' := by
  rw [ofNat]
  split
  · rename_i hlt
    refine ⟨digit n, [], rfl, ?_⟩
    intro heq
    have hvalue := congrArg value heq
    rw [value_digit hlt, show value (unit '0') = 0 by decide] at hvalue
    omega
  · obtain ⟨u, us, hus, hu⟩ := ofNat_eq_cons (n := n / 10) (by omega)
    exact ⟨u, us ++ [digit (n % 10)], by rw [hus, List.cons_append], hu⟩
termination_by n
decreasing_by omega

namespace Decimal

/-- A decimal as it is written. -/
structure Parts where
  whole : List UInt16
  fraction : List UInt16
  exponent : Int

namespace Parts

/-- The digits behind the point, with the point if there are any. -/
def pointed (fraction : List UInt16) : List UInt16 :=
  if fraction = [] then [] else unit '.' :: fraction

/-- The exponent with its mark, unless it is zero. -/
def marked (e : Int) : List UInt16 := if e = 0 then [] else exponentPart e

def units (p : Parts) : List UInt16 := p.whole ++ (pointed p.fraction ++ marked p.exponent)

/-- The number that the digits spell without the point. -/
def digits (p : Parts) : Nat := Digits.toNat (p.whole ++ p.fraction)

/-- The number that the parts stand for. -/
def value (p : Parts) : ℚ := p.digits * 10 ^ (p.exponent - p.fraction.length)

/-- Parts that may stand in a text: digits only, and no needless zero in front. -/
structure Valid (p : Parts) : Prop where
  whole : ∀ u ∈ p.whole, Digits.isDigit u = true
  fraction : ∀ u ∈ p.fraction, Digits.isDigit u = true
  leading : p.whole = [unit '0'] ∨ ∃ u us, p.whole = u :: us ∧ u ≠ unit '0'

/-- The parts of the text of a decimal. -/
structure Of (p : Parts) (d : Decimal) : Prop where
  units_eq : d.units = p.units
  valid : p.Valid
  value_eq : p.value = d.value

end Parts

variable {d : Decimal}

/-! ## The four forms -/

theorem parts_of_scientific (hc : 0 < d.coefficient)
    (hp : positionalLimit < d.point ∨ d.point ≤ leadingZeroLimit) :
    ∃ p : Parts, p.Of d := by
  obtain ⟨u, us, hcons, hu⟩ := Digits.ofNat_eq_cons hc
  have hdigits := Digits.isDigit_of_mem_ofNat d.coefficient
  rw [hcons, List.forall_mem_cons] at hdigits
  have hlen : (Digits.ofNat d.coefficient).length = us.length + 1 := by
    rw [hcons, List.length_cons]
  have hdigitsEq : Digits.toNat ([u] ++ us) = d.coefficient := by
    rw [List.singleton_append, ← hcons, Digits.toNat_ofNat]
  refine ⟨⟨[u], us, d.point - 1⟩, ⟨?_, ⟨?_, hdigits.2, .inr ⟨u, [], rfl, hu⟩⟩, ?_⟩⟩
  · simp only [positionalLimit, leadingZeroLimit] at hp
    have hnonzero : d.point - 1 ≠ 0 := by omega
    simp only [point] at hp hnonzero
    unfold units Parts.units Parts.marked point
    dsimp only
    rw [if_neg (by simp only [positionalLimit]; omega),
      if_neg (by simp only [leadingZeroLimit]; omega), if_neg hnonzero, hcons]
    cases us with
    | nil => rfl
    | cons v us => rfl
  · simpa using hdigits.1
  · simp only [Parts.value, Parts.digits, hdigitsEq, value, point, hlen]
    congr 2
    push_cast
    ring

theorem parts_of_inner (hc : 0 < d.coefficient) (he : d.exponent < 0) (hp : 0 < d.point)
    (hp' : d.point ≤ positionalLimit) : ∃ p : Parts, p.Of d := by
  obtain ⟨u, us, hcons, hu⟩ := Digits.ofNat_eq_cons hc
  have hdigits := Digits.isDigit_of_mem_ofNat d.coefficient
  have hpoint : d.point = (Digits.ofNat d.coefficient).length + d.exponent := rfl
  have hfraction : (Digits.ofNat d.coefficient).drop d.point.toNat ≠ [] := by
    rw [← List.length_pos_iff, List.length_drop]
    omega
  obtain ⟨k, hk⟩ : ∃ k, d.point.toNat = k + 1 := ⟨d.point.toNat - 1, by omega⟩
  have hdigitsEq : Digits.toNat ((Digits.ofNat d.coefficient).take d.point.toNat ++
      (Digits.ofNat d.coefficient).drop d.point.toNat) = d.coefficient := by
    rw [List.take_append_drop, Digits.toNat_ofNat]
  refine ⟨⟨(Digits.ofNat d.coefficient).take d.point.toNat,
    (Digits.ofNat d.coefficient).drop d.point.toNat, 0⟩, ⟨?_, ⟨?_, ?_, ?_⟩, ?_⟩⟩
  · rw [units_of_inner he hp hp', Parts.units, Parts.marked, Parts.pointed, if_neg hfraction,
      if_pos rfl, List.append_nil]
  · exact fun v hv => hdigits v (List.mem_of_mem_take hv)
  · exact fun v hv => hdigits v (List.mem_of_mem_drop hv)
  · exact .inr ⟨u, us.take k, by rw [hk, hcons]; rfl, hu⟩
  · simp only [Parts.value, Parts.digits, hdigitsEq, value, List.length_drop]
    congr 2
    omega

theorem parts_of_small (hp : leadingZeroLimit < d.point) (hp' : d.point ≤ 0) :
    ∃ p : Parts, p.Of d := by
  have hpoint : d.point = (Digits.ofNat d.coefficient).length + d.exponent := rfl
  have hdigitsEq : Digits.toNat ([unit '0'] ++ (zeros (-d.point).toNat ++
      Digits.ofNat d.coefficient)) = d.coefficient := by
    rw [Digits.toNat_append, Digits.toNat_append, zeros, Digits.toNat_zeros,
      Digits.toNat_ofNat, show Digits.toNat [unit '0'] = 0 by decide]
    simp
  refine ⟨⟨[unit '0'], zeros (-d.point).toNat ++ Digits.ofNat d.coefficient, 0⟩,
    ⟨?_, ⟨?_, ?_, .inl rfl⟩, ?_⟩⟩
  · rw [units_of_small hp hp', Parts.units, Parts.marked, Parts.pointed,
      if_neg (by simp [Digits.ofNat_ne_nil]), if_pos rfl, List.append_nil]
  · intro v hv
    rw [List.mem_singleton.mp hv]
    decide
  · intro v hv
    rcases List.mem_append.mp hv with hv | hv
    · exact Digits.isDigit_of_mem_zeros hv
    · exact Digits.isDigit_of_mem_ofNat d.coefficient v hv
  · rw [Parts.value, Parts.digits, hdigitsEq, value, List.length_append, zeros,
      List.length_replicate]
    congr 2
    dsimp only
    omega

theorem parts_of_whole (hc : 0 < d.coefficient) (he : 0 ≤ d.exponent)
    (hp : d.point ≤ positionalLimit) : ∃ p : Parts, p.Of d := by
  obtain ⟨u, us, hcons, hu⟩ := Digits.ofNat_eq_cons hc
  have hdigitsEq : Digits.toNat (Digits.ofNat d.coefficient ++ zeros d.exponent.toNat) =
      d.coefficient * 10 ^ d.exponent.toNat := by
    rw [Digits.toNat_append, Digits.toNat_ofNat, zeros, Digits.toNat_zeros,
      List.length_replicate, Nat.add_zero]
  have hdigits : ∀ v ∈ Digits.ofNat d.coefficient ++ zeros d.exponent.toNat,
      Digits.isDigit v = true := by
    intro v hv
    rcases List.mem_append.mp hv with hv | hv
    · exact Digits.isDigit_of_mem_ofNat d.coefficient v hv
    · exact Digits.isDigit_of_mem_zeros hv
  refine ⟨⟨Digits.ofNat d.coefficient ++ zeros d.exponent.toNat, [], 0⟩,
    ⟨?_, ⟨hdigits, by simp, ?_⟩, ?_⟩⟩
  · rw [units_of_whole he hp, Parts.units, Parts.marked, Parts.pointed, if_pos rfl, if_pos rfl,
      List.append_nil, List.append_nil]
  · exact .inr ⟨u, us ++ zeros d.exponent.toNat, by rw [hcons]; rfl, hu⟩
  · rw [Parts.value, Parts.digits, List.append_nil, hdigitsEq, value]
    obtain ⟨k, hk⟩ := Int.eq_ofNat_of_zero_le he
    rw [hk, Int.toNat_natCast]
    simp

/-- **The text of a decimal has parts**, whatever its size. -/
theorem exists_parts (hc : 0 < d.coefficient) : ∃ p : Parts, p.Of d := by
  rcases lt_or_ge positionalLimit d.point with hp | hp
  · exact parts_of_scientific hc (.inl hp)
  rcases le_or_gt d.point leadingZeroLimit with hp' | hp'
  · exact parts_of_scientific hc (.inr hp')
  rcases le_or_gt 0 d.exponent with he | he
  · exact parts_of_whole hc he hp
  rcases lt_or_ge 0 d.point with hpos | hneg
  · exact parts_of_inner hc he hpos hp
  · exact parts_of_small hp' hneg

/-- The units of a decimal are digits, a point, and the mark and sign of an exponent. -/
theorem mem_units (hc : 0 < d.coefficient) {u : UInt16} (hu : u ∈ d.units) :
    Digits.isDigit u = true ∨ u ∈ [unit '.', unit 'e', unit '+', unit '-'] := by
  obtain ⟨p, hunits, hvalid, -⟩ := exists_parts hc
  rw [hunits, Parts.units, List.mem_append, List.mem_append] at hu
  rcases hu with hu | hu | hu
  · exact .inl (hvalid.whole u hu)
  · unfold Parts.pointed at hu
    split at hu
    · cases hu
    · rcases List.mem_cons.mp hu with rfl | hu
      · exact .inr (by decide)
      · exact .inl (hvalid.fraction u hu)
  · unfold Parts.marked exponentPart at hu
    split at hu
    · cases hu
    · rcases List.mem_cons.mp hu with rfl | hu
      · exact .inr (by decide)
      rcases List.mem_cons.mp hu with rfl | hu
      · refine .inr ?_
        split <;> decide
      · exact .inl (Digits.isDigit_of_mem_ofNat _ u hu)

end Decimal

end Honeycomb
