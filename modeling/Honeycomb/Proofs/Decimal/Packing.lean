import Mathlib.Tactic.NormNum
import Honeycomb.Decimal.Reader
import Honeycomb.Decimal.Shortest

/-!
# Floats as binary fractions

A positive finite float is a binary fraction in exactly one way.

* `Binary.Canonical` — the binary fractions that floats unpack to; `Binary.Normal` — those that
  numbers of any size are rounded to.
* `canonical_of_unpack` — nothing else comes out of a float.
* `pack_unpack` — a float is what its parts are packed to, infinities and zeros included.
* `unpack_pack` — a canonical fraction is what it packs to.
* `Binary.float` — the float that a binary fraction is; `Binary.float_of_beyond` — the
  infinite one, if its exponent is too great.
-/

set_option autoImplicit false

namespace Honeycomb

open Float.Model (UnpackedFloat Format)
open Float.Model.UnpackedFloat

/-- The greatest exponent that a float has. -/
def Binary.greatestExponent : Int := 971

/-- The form in which floats hold binary fractions: 53 bits of significand, the first of them set
unless the exponent is the least one. -/
structure Binary.Canonical (b : Binary) : Prop where
  positive : 0 < b.significand
  short : b.significand < 2 ^ 53
  least : Binary.leastExponent ≤ b.exponent
  greatest : b.exponent ≤ Binary.greatestExponent
  full : 2 ^ 52 ≤ b.significand ∨ b.exponent = Binary.leastExponent

/-- The form in which numbers are rounded, whatever their size: as in floats, but with no greatest
exponent, and with the zero. -/
structure Binary.Normal (b : Binary) : Prop where
  short : b.significand < 2 ^ 53
  least : Binary.leastExponent ≤ b.exponent
  full : 2 ^ 52 ≤ b.significand ∨ b.exponent = Binary.leastExponent

theorem Binary.Canonical.normal {b : Binary} (hb : b.Canonical) : b.Normal :=
  ⟨hb.short, hb.least, hb.full⟩

theorem Binary.Normal.canonical {b : Binary} (hb : b.Normal) (hpos : 0 < b.significand)
    (hgreatest : b.exponent ≤ Binary.greatestExponent) : b.Canonical :=
  ⟨hpos, hb.short, hb.least, hgreatest, hb.full⟩

/-- The parts of the float that a binary fraction is. -/
def Binary.unpacked (b : Binary) : UnpackedFloat :=
  if h : 0 < b.significand then .finite .positive b.significand b.exponent h else .zero .positive

/-- The float that a binary fraction is. -/
def Binary.float (b : Binary) : Float := .ofModel (.pack b.unpacked)

theorem Binary.unpacked_eq {b : Binary} (h : 0 < b.significand) :
    b.unpacked = .finite .positive b.significand b.exponent h := dif_pos h

namespace Packing

/-! ## The bits of a float -/

variable {b : BitVec Format.binary64.numBits}

theorem unpackMantissa_lt : (unpackMantissa b).toNat < 2 ^ 52 := (unpackMantissa b).isLt

theorem unpackExponent_lt : (unpackExponent b).toNat < 2048 := (unpackExponent b).isLt

theorem toNat_unpackMantissa : (unpackMantissa b).toNat = b.toNat % 2 ^ 52 := by
  simp [unpackMantissa]

theorem toNat_unpackExponent : (unpackExponent b).toNat = b.toNat / 2 ^ 52 % 2 ^ 11 := by
  simp [unpackExponent, Nat.shiftRight_eq_div_pow]

theorem toNat_unpackSign : (unpackSign b).toNat = b.toNat / 2 ^ 63 := by
  have hb : b.toNat < 2 ^ 64 := b.isLt
  show (BitVec.cast _ (b.extractLsb 63 63)).toNat = _
  rw [BitVec.toNat_cast, BitVec.extractLsb_toNat, Nat.shiftRight_eq_div_pow]
  omega

theorem toNat_packComponents (s : Sign) (e : BitVec 11) (m : BitVec 52) :
    (packComponents .binary64 s e m).toNat =
      s.toBitVec.toNat * 2 ^ 63 + e.toNat * 2 ^ 52 + m.toNat := by
  have he := e.isLt
  have hm := m.isLt
  unfold packComponents
  rw [BitVec.toNat_append, BitVec.toNat_append, ← Nat.shiftLeft_add_eq_or_of_lt he,
    ← Nat.shiftLeft_add_eq_or_of_lt hm, Nat.shiftLeft_eq, Nat.shiftLeft_eq]
  omega

theorem toBitVec_ofBitVec (s : BitVec 1) : (Sign.ofBitVec s).toBitVec = s := by
  revert s
  decide

theorem ofBitVec_toBitVec (s : Sign) : Sign.ofBitVec s.toBitVec = s := by
  cases s <;> rfl

/-- A float is made of its three parts. -/
theorem packComponents_unpack :
    packComponents .binary64 (Sign.ofBitVec (unpackSign b)) (unpackExponent b) (unpackMantissa b) =
      b := by
  have hb : b.toNat < 2 ^ 64 := b.isLt
  apply BitVec.eq_of_toNat_eq
  rw [toNat_packComponents, toBitVec_ofBitVec, toNat_unpackSign, toNat_unpackExponent,
    toNat_unpackMantissa]
  omega

theorem unpackSign_packComponents (s : Sign) (e : BitVec 11) (m : BitVec 52) :
    unpackSign (packComponents .binary64 s e m) = s.toBitVec := by
  have he := e.isLt
  have hm := m.isLt
  apply BitVec.eq_of_toNat_eq
  rw [toNat_unpackSign, toNat_packComponents]
  omega

theorem toNat_implicit (m : BitVec 52) : (1#1 ++ m).toNat = 2 ^ 52 + m.toNat := by
  have hm := m.isLt
  rw [BitVec.toNat_append, ← Nat.shiftLeft_add_eq_or_of_lt hm]
  simp [Nat.shiftLeft_eq]

/-! ## What a float unpacks to -/

/-- The ways in which bits can be unpacked. -/
inductive Unpacked (b : BitVec Format.binary64.numBits) : UnpackedFloat → Prop
  | infinity (top : unpackExponent b = -1#11) (whole : unpackMantissa b = 0#52) :
      Unpacked b (.infinity (Sign.ofBitVec (unpackSign b)))
  | notANumber (top : unpackExponent b = -1#11) (rest : unpackMantissa b ≠ 0#52) :
      Unpacked b .notANumber
  | zero (bottom : unpackExponent b = 0#11) (whole : unpackMantissa b = 0#52) :
      Unpacked b (.zero (Sign.ofBitVec (unpackSign b)))
  | subnormal {h : 0 < (unpackMantissa b).toNat} (bottom : unpackExponent b = 0#11) :
      Unpacked b (.finite (Sign.ofBitVec (unpackSign b)) (unpackMantissa b).toNat
        Binary.leastExponent h)
  | normal {m : Nat} {h : 0 < m} (inner : 0 < (unpackExponent b).toNat)
      (under : (unpackExponent b).toNat < 2047) (implicit : m = 2 ^ 52 + (unpackMantissa b).toNat) :
      Unpacked b (.finite (Sign.ofBitVec (unpackSign b)) m ((unpackExponent b).toNat - 1075) h)

theorem unpack_spec (b : BitVec Format.binary64.numBits) : Unpacked b (unpack .binary64 b) := by
  unfold unpack
  dsimp only
  by_cases top : unpackExponent b = -1#11
  · rw [if_pos top]
    by_cases whole : unpackMantissa b = 0#52
    · rw [if_pos whole]
      exact .infinity top whole
    · rw [if_neg whole]
      exact .notANumber top whole
  rw [if_neg top]
  by_cases bottom : unpackExponent b = 0#11
  · rw [if_pos bottom]
    by_cases whole : unpackMantissa b = 0#52
    · rw [dif_pos whole]
      exact .zero bottom whole
    · rw [dif_neg whole, bottom]
      exact .subnormal bottom
  · rw [if_neg bottom]
    have hlt := unpackExponent_lt (b := b)
    have hpos : (unpackExponent b).toNat ≠ 0 := fun h =>
      bottom (BitVec.eq_of_toNat_eq (by simpa using h))
    have htop : (unpackExponent b).toNat ≠ 2047 := fun h =>
      top (BitVec.eq_of_toNat_eq (by simpa using h))
    exact .normal (by omega) (by omega) (toNat_implicit _)

/-- **Floats are canonical.** -/
theorem canonical_of_unpack {f : Float.Model} {s : Sign} {m : Nat} {e : Int} {h : 0 < m}
    (hf : f.unpack = .finite s m e h) : Binary.Canonical ⟨m, e⟩ := by
  have hspec := unpack_spec f.toBits.toBitVec
  rw [show unpack .binary64 f.toBits.toBitVec = .finite s m e h from hf] at hspec
  have hlt := unpackMantissa_lt (b := f.toBits.toBitVec)
  cases hspec with
  | subnormal bottom =>
    exact ⟨h, Nat.lt_trans hlt (by norm_num), Int.le_refl _,
      by norm_num [Binary.leastExponent, Binary.greatestExponent], .inr rfl⟩
  | normal inner under implicit =>
    refine ⟨h, ?_, ?_, ?_, .inl ?_⟩ <;> simp only [Binary.leastExponent, Binary.greatestExponent]
    all_goals omega

/-- What a canonical fraction is packed to. -/
theorem pack_finite {s : Sign} {m : Nat} {e : Int} {h : 0 < m} (hb : Binary.Canonical ⟨m, e⟩) :
    pack .binary64 (.finite s m e h) =
      packComponents .binary64 s (BitVec.ofNat 11 (if 2 ^ 52 ≤ m then (e + 1075).toNat else 0))
        (BitVec.ofNat 52 m) := by
  obtain ⟨-, hshort, hleast, hgreatest, hfull⟩ := hb
  simp only [Binary.leastExponent, Binary.greatestExponent] at hshort hleast hgreatest hfull
  have hbias : e + (Format.binary64.exponentBias : Nat) +
      (Format.binary64.mantissaBitsWithoutImplicit : Nat) = e + 1075 := by
    rw [show Format.binary64.exponentBias = 1023 from rfl,
      show Format.binary64.mantissaBitsWithoutImplicit = 52 from rfl]
    omega
  have hbits : Format.binary64.mantissaBits = 53 := rfl
  unfold pack
  dsimp only
  rw [hbias, hbits, if_neg (by omega)]
  by_cases hm : 2 ^ 52 ≤ m
  · have hlog : m.log2 + 1 = 53 := by
      have hle := (Nat.le_log2 (by omega)).mpr hm
      have hlt := (Nat.log2_lt (by omega)).mpr hshort
      omega
    rw [if_pos hlog, if_pos hm]
  · have hlog : ¬ m.log2 + 1 = 53 := by
      have hlt := (Nat.log2_lt (by omega)).mpr (Nat.lt_of_not_le hm)
      omega
    rw [if_neg hlog, if_neg hm]

/-- **A float is what its parts are packed to.** -/
theorem pack_unpack (f : Float.Model) : Float.Model.pack f.unpack = f := by
  suffices pack .binary64 (unpack .binary64 f.toBits.toBitVec) = f.toBits.toBitVec by
    have hbits : (Float.Model.pack f.unpack).toBits = f.toBits := congrArg UInt64.ofBitVec this
    generalize Float.Model.pack f.unpack = g at hbits
    cases f
    cases g
    cases hbits
    rfl
  have whole := packComponents_unpack (b := f.toBits.toBitVec)
  have hspec := unpack_spec f.toBits.toBitVec
  generalize hu : unpack .binary64 f.toBits.toBitVec = u at hspec ⊢
  cases hspec with
  | infinity top rest => rw [top, rest] at whole; exact whole
  | notANumber top rest => exact (f.valid.eq_packedNaN top rest).symm
  | zero bottom rest => rw [bottom, rest] at whole; exact whole
  | subnormal bottom =>
    rw [pack_finite (canonical_of_unpack (f := f) hu),
      if_neg (Nat.not_le.mpr unpackMantissa_lt), BitVec.ofNat_toNat, BitVec.setWidth_eq]
    rw [bottom] at whole
    exact whole
  | normal inner under implicit =>
    have hlt := unpackMantissa_lt (b := f.toBits.toBitVec)
    rw [pack_finite (canonical_of_unpack (f := f) hu), if_pos (by omega)]
    convert whole using 2
    · apply BitVec.eq_of_toNat_eq
      rw [BitVec.toNat_ofNat]
      omega
    · apply BitVec.eq_of_toNat_eq
      rw [BitVec.toNat_ofNat, implicit]
      omega

theorem finite_congr {s s' : Sign} {m m' : Nat} {e e' : Int} {h : 0 < m} {h' : 0 < m'}
    (hs : s = s') (hm : m = m') (he : e = e') :
    UnpackedFloat.finite s m e h = UnpackedFloat.finite s' m' e' h' := by
  subst hs hm he
  rfl

/-- **A canonical fraction is what it is packed to.** -/
theorem unpack_pack {s : Sign} {m : Nat} {e : Int} {h : 0 < m} (hb : Binary.Canonical ⟨m, e⟩) :
    (Float.Model.pack (.finite s m e h)).unpack = .finite s m e h := by
  show unpack .binary64 (pack .binary64 (.finite s m e h)) = _
  rw [pack_finite hb]
  generalize hex : BitVec.ofNat 11 (if 2 ^ 52 ≤ m then (e + 1075).toNat else 0) = ex
  generalize hma : BitVec.ofNat 52 m = ma
  have hman : ma.toNat = m % 2 ^ 52 := by rw [← hma, BitVec.toNat_ofNat]
  obtain ⟨-, hshort, hleast, hgreatest, hfull⟩ := hb
  simp only [Binary.leastExponent, Binary.greatestExponent] at hshort hleast hgreatest hfull
  -- the exponent's bits tell the two forms apart
  have hform : (2 ^ 52 ≤ m ∧ (ex.toNat : Int) = e + 1075) ∨
      (m < 2 ^ 52 ∧ ex.toNat = 0 ∧ e = -1074) := by
    rw [← hex, BitVec.toNat_ofNat]
    split
    · left
      omega
    · right
      omega
  have hsign : Sign.ofBitVec (unpackSign (packComponents .binary64 s ex ma)) = s := by
    rw [unpackSign_packComponents, ofBitVec_toBitVec]
  have hexp : unpackExponent (packComponents .binary64 s ex ma) = ex :=
    unpackExponent_packComponents
  have hmant : unpackMantissa (packComponents .binary64 s ex ma) = ma :=
    unpackMantissa_packComponents
  have hspec := unpack_spec (packComponents .binary64 s ex ma)
  generalize unpack .binary64 (packComponents .binary64 s ex ma) = u at hspec ⊢
  cases hspec with
  | infinity top | notANumber top =>
    rw [hexp] at top
    rw [top] at hform
    norm_num at hform
    omega
  | zero bottom rest =>
    rw [hexp] at bottom
    rw [hmant] at rest
    rw [bottom] at hform
    rw [rest] at hman
    norm_num at hform hman
    omega
  | subnormal bottom =>
    rw [hexp] at bottom
    rw [bottom] at hform
    norm_num at hform
    obtain ⟨hm, he⟩ | ⟨hm, he⟩ := hform
    · omega
    · have hval : ma.toNat = m := by omega
      exact finite_congr hsign (by rw [hmant, hval]) he.symm
  | normal inner under implicit =>
    rw [hexp] at inner
    rw [hmant] at implicit
    obtain ⟨hm, he⟩ | ⟨-, h0, -⟩ := hform
    · have hval : 2 ^ 52 + ma.toNat = m := by omega
      have hplace : (ex.toNat : Int) - 1075 = e := by omega
      exact finite_congr hsign (by rw [implicit, hval]) (by rw [hexp, hplace])
    · omega

end Packing

theorem Binary.Canonical.unpack_float {b : Binary} (hb : b.Canonical) :
    b.float.toModel.unpack = b.unpacked := by
  rw [Binary.float, Binary.unpacked_eq hb.positive]
  exact Packing.unpack_pack hb

theorem Binary.float_of_zero {b : Binary} (h : b.significand = 0) : b.float = 0 := by
  rw [Binary.float, Binary.unpacked, dif_neg (by omega)]
  rfl

/-- Beyond the greatest exponent a fraction is packed as the infinite float. -/
theorem Binary.float_of_beyond {b : Binary} (hpos : 0 < b.significand)
    (h : Binary.greatestExponent < b.exponent) : b.float = infinity := by
  have hpack : pack .binary64 b.unpacked = packedInfinity .binary64 .positive := by
    have hbias : 2 ^ Format.binary64.exponentBits ≤
        (b.exponent + (Format.binary64.exponentBias : Nat) +
          (Format.binary64.mantissaBitsWithoutImplicit : Nat)).toNat + 1 := by
      rw [show Format.binary64.exponentBias = 1023 from rfl,
        show Format.binary64.mantissaBitsWithoutImplicit = 52 from rfl,
        show Format.binary64.exponentBits = 11 from rfl]
      simp only [Binary.greatestExponent] at h
      omega
    rw [Binary.unpacked_eq hpos]
    exact if_pos hbias
  have hinfinity : infinity = Float.ofModel (Float.Model.pack (.infinity .positive)) := by
    decide +kernel
  rw [hinfinity, Binary.float]
  unfold Float.Model.pack
  congr 2
  rw [hpack]
  rfl

/-- A positive finite float is the binary fraction it unpacks to. -/
theorem Binary.float_of_unpack {x : Float} {m : Nat} {e : Int} {h : 0 < m}
    (hx : x.toModel.unpack = .finite .positive m e h) : Binary.float ⟨m, e⟩ = x := by
  rw [Binary.float, Binary.unpacked_eq h, ← hx, Packing.pack_unpack]

theorem Binary.Canonical.float_inj {a b : Binary} (ha : a.Canonical) (hb : b.Canonical)
    (h : a.float = b.float) : a = b := by
  have hparts : a.unpacked = b.unpacked := by rw [← ha.unpack_float, h, hb.unpack_float]
  rw [unpacked_eq ha.positive, unpacked_eq hb.positive] at hparts
  obtain ⟨m, e⟩ := a
  obtain ⟨n, f⟩ := b
  injection hparts with _ hm he
  rw [Binary.mk.injEq]
  exact ⟨hm, he⟩

end Honeycomb
