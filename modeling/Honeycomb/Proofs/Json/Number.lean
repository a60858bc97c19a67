import Honeycomb.Json.Parser
import Honeycomb.Json.Printer
import Honeycomb.Proofs.Decimal.Parts

/-!
# The text of a number is read back

* `Stops` — what may follow a number without being taken for a part of it.
* `readUnsigned_parts` — a decimal is read part by part.
* `mem_numberUnits`, `numberText_of_not_finite` — the units and texts that a float may have;
  `forall_mem_numberText` puts them together.
* `readNumber_numberUnits` — the text of a finite float is read as that float, unless it is the zero
  that loses its sign.
-/

set_option autoImplicit false

namespace Honeycomb.Json

open Text (unit)
open Decimal (Parts)

/-- A unit that a number does not go on with. -/
def Halts (u : UInt16) : Prop :=
  Digits.isDigit u = false ∧ u ≠ unit '.' ∧ u ≠ unit 'e' ∧ u ≠ unit 'E'

instance (u : UInt16) : Decidable (Halts u) := inferInstanceAs (Decidable (_ ∧ _))

/-- What may follow a number: nothing, or a unit that it does not go on with. -/
def Stops (rest : List UInt16) : Prop := ∀ u more, rest = u :: more → Halts u

theorem stops_nil : Stops [] := nofun

theorem stops_cons {u : UInt16} (hu : Halts u) (rest : List UInt16) : Stops (u :: rest) := by
  rintro _ _ ⟨⟩
  exact hu

/-! ## Parts -/

theorem readWhole_digits {whole rest : List UInt16} (hd : ∀ u ∈ whole, Digits.isDigit u = true)
    (hleading : whole = [unit '0'] ∨ ∃ u us, whole = u :: us ∧ u ≠ unit '0')
    (hrest : ∀ u more, rest = u :: more → Digits.isDigit u = false) :
    readWhole (whole ++ rest) = some (whole, rest) := by
  rcases hleading with rfl | ⟨u, us, rfl, hu⟩
  · rw [List.singleton_append, readWhole, if_pos rfl]
  · have htake := Digits.take_append hd hrest
    rw [List.cons_append] at htake ⊢
    rw [readWhole, if_neg hu, htake]
    rfl

theorem readFraction_pointed {fraction rest : List UInt16}
    (hd : ∀ u ∈ fraction, Digits.isDigit u = true)
    (hrest : ∀ u more, rest = u :: more → Digits.isDigit u = false ∧ u ≠ unit '.') :
    readFraction (Parts.pointed fraction ++ rest) = some (fraction, rest) := by
  unfold Parts.pointed
  split
  · rename_i hempty
    subst hempty
    cases rest with
    | nil => rfl
    | cons u more =>
      rw [List.nil_append, readFraction, if_neg (hrest u more rfl).2]
  · rename_i hne
    rw [List.cons_append, readFraction, if_pos rfl,
      Digits.take_append hd fun u more h => (hrest u more h).1]
    dsimp only
    rw [if_neg (by simpa using hne)]

theorem readExponentDigits_ofNat (negative : Bool) (n : Nat) {rest : List UInt16}
    (hrest : ∀ u more, rest = u :: more → Digits.isDigit u = false) :
    readExponentDigits negative (Digits.ofNat n ++ rest) =
      some (if negative then -(n : Int) else n, rest) := by
  rw [readExponentDigits, Digits.take_append (Digits.isDigit_of_mem_ofNat n) hrest]
  dsimp only
  rw [if_neg (by simp [Digits.ofNat_ne_nil]), Digits.toNat_ofNat]

theorem readExponent_marked (e : Int) {rest : List UInt16} (hrest : Stops rest) :
    readExponent (Parts.marked e ++ rest) = some (e, rest) := by
  unfold Parts.marked
  split
  · rename_i hzero
    subst hzero
    cases rest with
    | nil => rfl
    | cons u more =>
      obtain ⟨-, -, he, hE⟩ := hrest u more rfl
      rw [List.nil_append, readExponent, if_neg (by simp [he, hE])]
  · have hdigits := fun u more h => (hrest u more h).1
    rw [Decimal.exponentPart, List.cons_append, List.cons_append, readExponent, if_pos (.inl rfl)]
    by_cases hneg : e < 0
    · rw [if_pos hneg, readSignedExponent, if_pos rfl, readExponentDigits_ofNat true _ hdigits,
        if_pos rfl]
      congr 2
      omega
    · rw [if_neg hneg, readSignedExponent, if_neg (by decide), if_pos rfl,
        readExponentDigits_ofNat false _ hdigits, if_neg (by decide)]
      congr 2
      omega

/-- **A decimal is read part by part.** -/
theorem readUnsigned_parts {p : Parts} (hp : p.Valid) {rest : List UInt16} (hrest : Stops rest) :
    readUnsigned (p.units ++ rest) =
      some (floatOfParts p.whole p.fraction p.exponent, rest) := by
  -- an exponent starts with its mark, which goes on neither with digits nor with a point
  have hmark : ∀ u more, Parts.marked p.exponent ++ rest = u :: more →
      Digits.isDigit u = false ∧ u ≠ unit '.' := by
    intro u more h
    unfold Parts.marked at h
    split at h
    · exact ⟨(hrest u more h).1, (hrest u more h).2.1⟩
    · cases h
      decide
  have hpoint : ∀ u more,
      Parts.pointed p.fraction ++ (Parts.marked p.exponent ++ rest) = u :: more →
        Digits.isDigit u = false := by
    intro u more h
    unfold Parts.pointed at h
    split at h
    · exact (hmark u more h).1
    · cases h
      decide
  rw [readUnsigned, Parts.units, List.append_assoc, List.append_assoc,
    readWhole_digits hp.whole hp.leading hpoint]
  dsimp only [Option.bind_eq_bind, Option.bind_some]
  rw [readFraction_pointed hp.fraction hmark]
  dsimp only [Option.bind_some]
  rw [readExponent_marked _ hrest]
  rfl

/-! ## Numbers -/

/-- The shortest decimal of a float is read as that float. -/
theorem readUnsigned_shortest {b : Binary} (hb : b.Canonical) {rest : List UInt16}
    (hrest : Stops rest) : readUnsigned (b.shortest.units ++ rest) = some (b.float, rest) := by
  obtain ⟨hrounds, hpos, -, -⟩ := Binary.shortest_spec hb
  obtain ⟨p, hunits, hvalid, hvalue⟩ := Decimal.exists_parts hpos
  rw [hunits, readUnsigned_parts hvalid hrest]
  rw [← hvalue] at hrounds
  have hdigits : 0 < p.digits := by
    rcases Nat.eq_zero_or_pos p.digits with h | h
    · have := hrounds.pos hb.positive
      rw [Parts.value, h] at this
      simp at this
    · exact h
  rw [floatOfParts]
  exact congrArg (fun x => some (x, rest)) (nearestFloat_of_rounds hb.normal hdigits hrounds)

open Float.Model.UnpackedFloat in
/-- A negative float is the opposite of the fraction that it unpacks to. -/
theorem neg_float_of_unpack {x : Float} {m : Nat} {e : Int} {h : 0 < m}
    (hx : x.toModel.unpack = .finite .negative m e h) : -(Binary.float ⟨m, e⟩) = x := by
  have hb := Packing.canonical_of_unpack hx
  show Float.ofModel (.pack (neg (Binary.float ⟨m, e⟩).toModel.unpack)) = x
  rw [hb.unpack_float, Binary.unpacked_eq h]
  show Float.ofModel (.pack (.finite .negative m e h)) = x
  rw [← hx, Packing.pack_unpack]

/-- The shortest decimal of a float does not start with a minus. -/
theorem shortest_units_eq_cons {b : Binary} (hb : b.Canonical) :
    ∃ u us, b.shortest.units = u :: us ∧ Digits.isDigit u = true := by
  obtain ⟨-, hpos, -, -⟩ := Binary.shortest_spec hb
  obtain ⟨p, hunits, hvalid, -⟩ := Decimal.exists_parts hpos
  obtain ⟨u, us, hwhole⟩ : ∃ u us, p.whole = u :: us := by
    rcases hvalid.leading with h | ⟨u, us, h, -⟩
    · exact ⟨_, _, h⟩
    · exact ⟨u, us, h⟩
  refine ⟨u, us ++ (Parts.pointed p.fraction ++ Parts.marked p.exponent), ?_, ?_⟩
  · rw [hunits, Parts.units, hwhole, List.cons_append]
  · exact hvalid.whole u (by rw [hwhole]; exact List.mem_cons_self)

theorem readNumber_of_digit {u : UInt16} (hu : Digits.isDigit u = true) (us : List UInt16) :
    readNumber (u :: us) = readUnsigned (u :: us) := by
  rw [readNumber, if_neg]
  rintro rfl
  cases hu

open Float.Model in
/-- A finite float is a zero, or it has a shortest decimal, with a minus in front if it is
negative. -/
theorem numberUnits_cases {x : Float} (hfinite : x.isFinite = true) :
    (∃ sign, x.toModel.unpack = .zero sign ∧ numberUnits x = [unit '0']) ∨
      (∃ m e h, x.toModel.unpack = .finite .positive m e h ∧
        numberUnits x = (Binary.shortest ⟨m, e⟩).units) ∨
      ∃ m e h, x.toModel.unpack = .finite .negative m e h ∧
        numberUnits x = unit '-' :: (Binary.shortest ⟨m, e⟩).units := by
  have hfinite : x.toModel.unpack.isFinite = true := hfinite
  unfold numberUnits
  cases hu : x.toModel.unpack with
  | notANumber =>
    rw [hu] at hfinite
    cases hfinite
  | infinity sign =>
    rw [hu] at hfinite
    cases hfinite
  | zero sign => exact .inl ⟨sign, rfl, rfl⟩
  | finite sign m e h =>
    cases sign with
    | positive => exact .inr (.inl ⟨m, e, h, rfl, rfl⟩)
    | negative => exact .inr (.inr ⟨m, e, h, rfl, rfl⟩)

/-- The units of the text of a finite float. -/
theorem mem_numberUnits {x : Float} (hfinite : x.isFinite = true) {u : UInt16}
    (hu : u ∈ numberUnits x) :
    Digits.isDigit u = true ∨ u ∈ [unit '.', unit 'e', unit '+', unit '-'] := by
  rcases numberUnits_cases hfinite with
    ⟨sign, -, hunits⟩ | ⟨m, e, h, hx, hunits⟩ | ⟨m, e, h, hx, hunits⟩
  · rw [hunits, List.mem_singleton] at hu
    subst hu
    exact .inl (by decide)
  · rw [hunits] at hu
    exact Decimal.mem_units (Binary.shortest_spec (Packing.canonical_of_unpack hx)).2.1 hu
  · rw [hunits, List.mem_cons] at hu
    rcases hu with rfl | hu
    · exact .inr (by decide)
    · exact Decimal.mem_units (Binary.shortest_spec (Packing.canonical_of_unpack hx)).2.1 hu

/-- The texts of the other floats. -/
theorem numberText_of_not_finite {x : Float} (h : x.isFinite = false) :
    numberText x ∈ [(.ofString "NaN" : Text), "Infinity", "-Infinity"] := by
  have hfinite : x.toModel.unpack.isFinite = false := h
  unfold numberText numberUnits
  cases hu : x.toModel.unpack with
  | notANumber => decide
  | infinity sign => cases sign <;> decide
  | zero sign =>
    rw [hu] at hfinite
    cases hfinite
  | finite sign m e h =>
    rw [hu] at hfinite
    cases hfinite

/-- What holds of digits, of the marks between them and in the words for the other floats holds
throughout the text of a float. -/
theorem forall_mem_numberText {P : UInt16 → Prop}
    (hdigits : ∀ u, Digits.isDigit u = true → P u)
    (hmarks : ∀ u ∈ [unit '.', unit 'e', unit '+', unit '-'], P u)
    (hwords : ∀ word ∈ [(.ofString "NaN" : Text), "Infinity", "-Infinity"],
      ∀ u ∈ word.units, P u)
    (x : Float) : ∀ u ∈ (numberText x).units, P u := by
  cases hfinite : x.isFinite with
  | true => exact fun u hu => (mem_numberUnits hfinite hu).elim (hdigits u) (hmarks u)
  | false => exact hwords _ (numberText_of_not_finite hfinite)

/-- **The text of a finite float is read as that float**, but for the zero that loses its sign. -/
theorem readNumber_numberUnits {x : Float} (hfinite : x.isFinite = true) (hsign : x ≠ -0)
    {rest : List UInt16} (hrest : Stops rest) :
    readNumber (numberUnits x ++ rest) = some (x, rest) := by
  have hback : x = Float.ofModel (.pack x.toModel.unpack) := by rw [Packing.pack_unpack]
  rcases numberUnits_cases hfinite with
    ⟨sign, hu, hunits⟩ | ⟨m, e, h, hu, hunits⟩ | ⟨m, e, h, hu, hunits⟩
  · rw [hunits]
    cases sign with
    | negative =>
      refine absurd ?_ hsign
      rw [hback, hu]
      rfl
    | positive =>
      have hdigit : Digits.isDigit (unit '0') = true := by decide
      have hvalid : (⟨[unit '0'], [], 0⟩ : Parts).Valid := by
        refine ⟨?_, by simp, .inl rfl⟩
        rwa [List.forall_mem_singleton]
      have hzero : x = floatOfParts [unit '0'] [] 0 := by
        rw [hback, hu]
        rfl
      rw [hzero]
      exact (readNumber_of_digit hdigit rest).trans (readUnsigned_parts hvalid hrest)
  · have hb := Packing.canonical_of_unpack hu
    obtain ⟨u, us, hcons, hdigit⟩ := shortest_units_eq_cons hb
    have hread := readUnsigned_shortest hb hrest
    rw [Binary.float_of_unpack hu] at hread
    rw [hunits, ← hread, hcons, List.cons_append, readNumber_of_digit hdigit]
  · have hb := Packing.canonical_of_unpack hu
    rw [hunits, List.cons_append, readNumber, if_pos rfl, readUnsigned_shortest hb hrest,
      Option.map_some]
    dsimp only
    rw [neg_float_of_unpack hu]

end Honeycomb.Json
