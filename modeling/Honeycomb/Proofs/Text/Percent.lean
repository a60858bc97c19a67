import Mathlib.Tactic.NormNum
import Mathlib.Tactic.SplitIfs
import Honeycomb.Json.Parser
import Honeycomb.Proofs.Text.Letters
import Honeycomb.Text.Percent

/-!
# Segments are read back

* `Utf8.decode_encode`, `Utf8.encode_eq_toUTF8` — the bytes of characters are those of their string,
  and are read as these characters.
* `Percent.Spells` — what a segment is written in, and the bytes that it stands for;
  `Percent.decode?` — the text that it is read as.
* `Percent.segment_spec` — a text without lone surrogates has a segment that stands for it in UTF-8.
* `Percent.segment?_injective` — texts with one segment are the same.
-/

set_option autoImplicit false

namespace Honeycomb.Text

/-! ## Characters in bytes -/

namespace Utf8

/-- A byte in the range of a character begun takes the character on. -/
theorem decodeFrom_next {s : Begun} {b : Nat} (hleast : s.least ≤ b) (hgreatest : b ≤ s.greatest)
    (howed : 1 < s.owed) (rest : List Nat) :
    decodeFrom (some s) (b :: rest) =
      decodeFrom (some { code := s.code * 64 + (b - 0x80), owed := s.owed - 1 }) rest := by
  rw [decodeFrom]
  simp only [hleast, hgreatest, and_self, if_true]
  rw [if_neg (by omega)]

/-- The last byte of a character ends it. -/
theorem decodeFrom_last {s : Begun} {b n : Nat} (hleast : s.least ≤ b) (hgreatest : b ≤ s.greatest)
    (howed : s.owed = 1) (hcode : s.code * 64 + (b - 0x80) = n) (rest : List Nat) :
    decodeFrom (some s) (b :: rest) = Char.ofNat n :: decodeFrom none rest := by
  rw [decodeFrom]
  simp only [hleast, hgreatest, and_self, if_true, hcode]
  rw [if_pos (by omega)]

theorem decodeFrom_whole {b : Nat} (h : b < 0x80) (rest : List Nat) :
    decodeFrom none (b :: rest) = Char.ofNat b :: decodeFrom none rest := by
  rw [decodeFrom, start, if_pos h]

theorem decodeFrom_longer {b : Nat} {s : Begun} (h : start b = .longer s) (rest : List Nat) :
    decodeFrom none (b :: rest) = decodeFrom (some s) rest := by
  rw [decodeFrom, h]

/-- What the first byte of a character of two bytes starts. -/
theorem start_of_two {n : Nat} (hlow : 0x80 ≤ n) (hhigh : n < 0x800) :
    start (0xC0 + n / 0x40) = .longer { code := n / 0x40, owed := 1 } := by
  rw [start, if_neg (by omega), if_neg (by omega), if_pos (by omega)]
  simp only [Nat.add_sub_cancel_left]

/-- What the first byte of a character of three bytes starts; surrogates are no characters. -/
theorem start_of_three {n : Nat} (hlow : 0x800 ≤ n) (hhigh : n < 0x10000)
    (hvalid : n < 0xD800 ∨ 0xE000 ≤ n) :
    ∃ least greatest, start (0xE0 + n / 0x1000) =
        .longer { code := n / 0x1000, owed := 2, least, greatest } ∧
      least ≤ 0x80 + n / 0x40 % 0x40 ∧ 0x80 + n / 0x40 % 0x40 ≤ greatest := by
  rw [start, if_neg (by omega), if_neg (by omega), if_neg (by omega)]
  split_ifs with hfirst hlast hother
  · refine ⟨0xA0, 0xBF, ?_, by omega, by omega⟩
    rw [show n / 0x1000 = 0 by omega]
  · refine ⟨0x80, 0x9F, ?_, by omega, by omega⟩
    rw [show n / 0x1000 = 0xD by omega]
  · refine ⟨0x80, 0xBF, ?_, by omega, by omega⟩
    rw [Nat.add_sub_cancel_left]
  all_goals omega

/-- What the first byte of a character of four bytes starts. -/
theorem start_of_four {n : Nat} (hlow : 0x10000 ≤ n) (hhigh : n < 0x110000) :
    ∃ least greatest, start (0xF0 + n / 0x40000) =
        .longer { code := n / 0x40000, owed := 3, least, greatest } ∧
      least ≤ 0x80 + n / 0x1000 % 0x40 ∧ 0x80 + n / 0x1000 % 0x40 ≤ greatest := by
  rw [start, if_neg (by omega), if_neg (by omega), if_neg (by omega), if_neg (by omega),
    if_neg (by omega), if_neg (by omega)]
  split_ifs with hfirst hother hlast
  · refine ⟨0x90, 0xBF, ?_, by omega, by omega⟩
    rw [show n / 0x40000 = 0 by omega]
  · refine ⟨0x80, 0xBF, ?_, by omega, by omega⟩
    rw [Nat.add_sub_cancel_left]
  · refine ⟨0x80, 0x8F, ?_, by omega, by omega⟩
    rw [show n / 0x40000 = 4 by omega]
  · omega

/-- The bytes of a character are read as this character, whatever follows them. -/
theorem decodeFrom_encodeChar (c : Char) (rest : List Nat) :
    decodeFrom none (encodeChar c ++ rest) = c :: decodeFrom none rest := by
  have hlt := toNat_lt_of_char c
  have hvalid : c.toNat < 0xD800 ∨ 0xE000 ≤ c.toNat := c.valid.imp_right And.left
  suffices ∀ n, n = c.toNat → decodeFrom none (encodeChar c ++ rest) =
      Char.ofNat n :: decodeFrom none rest by
    rw [this c.toNat rfl, Char.ofNat_toNat]
  intro n hn
  simp only [encodeChar, ← hn]
  rw [← hn] at hlt hvalid
  split_ifs with hone htwo hthree
  · exact decodeFrom_whole hone rest
  · rw [List.cons_append, decodeFrom_longer (start_of_two (by omega) htwo), List.cons_append]
    exact decodeFrom_last (by dsimp only; omega) (by dsimp only; omega) rfl
      (by dsimp only; omega) rest
  · obtain ⟨least, greatest, hstart, hleast, hgreatest⟩ := start_of_three (by omega) hthree hvalid
    rw [List.cons_append, decodeFrom_longer hstart, List.cons_append,
      decodeFrom_next hleast hgreatest (by norm_num), List.cons_append]
    exact decodeFrom_last (by dsimp only; omega) (by dsimp only; omega) rfl
      (by dsimp only; omega) rest
  · obtain ⟨least, greatest, hstart, hleast, hgreatest⟩ := start_of_four (by omega) hlt
    rw [List.cons_append, decodeFrom_longer hstart, List.cons_append,
      decodeFrom_next hleast hgreatest (by norm_num), List.cons_append,
      decodeFrom_next (by dsimp only; omega) (by dsimp only; omega) (by norm_num), List.cons_append]
    exact decodeFrom_last (by dsimp only; omega) (by dsimp only; omega) rfl
      (by dsimp only; omega) rest

/-- **The bytes of characters are read as these characters.** -/
theorem decode_encode (cs : List Char) : decode (encode cs) = cs := by
  unfold decode encode
  induction cs with
  | nil => rfl
  | cons c cs ih => rw [List.flatMap_cons, decodeFrom_encodeChar, ih]

/-- The bytes of a character are those that it has in a string. -/
theorem encodeChar_eq_map (c : Char) :
    encodeChar c = (String.utf8EncodeChar c).map UInt8.toNat := by
  have hlt := toNat_lt_of_char c
  have hcode : c.val.toNat = c.toNat := rfl
  unfold encodeChar String.utf8EncodeChar
  dsimp only
  rw [hcode]
  split_ifs <;> first
    | omega
    | simp only [List.map_cons, List.map_nil, UInt8.toNat_ofNat', List.cons.injEq, and_true]
      omega

/-- The bytes of characters are those of their string. -/
theorem encode_eq_toUTF8 (cs : List Char) :
    encode cs = (String.ofList cs).toUTF8.data.toList.map UInt8.toNat := by
  rw [String.toUTF8_eq_toByteArray, String.toByteArray_ofList, List.utf8Encode,
    List.data_toByteArray, List.map_flatMap]
  exact congrArg (cs.flatMap ·) (funext encodeChar_eq_map)

theorem lt_of_mem_encodeChar {c : Char} {b : Nat} (h : b ∈ encodeChar c) : b < 256 := by
  have hlt := toNat_lt_of_char c
  simp only [encodeChar] at h
  split_ifs at h <;> simp only [List.mem_cons, List.not_mem_nil, or_false] at h <;> omega

end Utf8

/-! ## Segments -/

namespace Percent

/-- A segment and the bytes that it stands for: a plain character stands for its own byte, a `%` and
two digits for the byte that they spell. -/
inductive Spells : List UInt16 → List Nat → Prop
  | nil : Spells [] []
  | plain {c : Char} {us : List UInt16} {bs : List Nat} :
      isPlain c = true → Spells us bs → Spells (unit c :: us) (c.toNat :: bs)
  | triple {b : Nat} {us : List UInt16} {bs : List Nat} :
      b < 256 → Spells us bs → Spells ((triple b).map unit ++ us) (b :: bs)

/-- The bytes of a segment, as they are read: a `%` and two hexadecimal digits are the byte that
they spell, and any other unit of ASCII is itself a byte. -/
def bytes? : List UInt16 → Option (List Nat)
  | [] => some []
  | u :: us =>
    if u = unit '%' then
      match us with
      | high :: low :: rest => do
        let h ← Json.hexValue? high
        let l ← Json.hexValue? low
        let bs ← bytes? rest
        some ((16 * h + l) :: bs)
      | _ => none
    else if u < 128 then (bytes? us).map (u.toNat :: ·)
    else none

/-- The text that a segment is read as. -/
def decode? (segment : Text) : Option Text :=
  (bytes? segment.units).map fun bs => ofChars (Utf8.decode bs)

theorem hexValue?_hexDigit : ∀ n < 16, Json.hexValue? (unit (hexDigit n)) = some n := by
  decide +kernel

theorem isPlain_hexDigit : ∀ n < 16, isPlain (hexDigit n) = true := by decide

/-- Plain characters are in ASCII. -/
theorem toNat_of_isPlain {c : Char} (h : isPlain c = true) : c.toNat < 128 := by
  have hmarks : "-_.!~*'()".toList.all (fun c => c.toNat < 128) = true := by decide
  rw [isPlain, Bool.or_eq_true, List.contains_iff_mem] at h
  rcases h with h | h
  · have hZ : 'Z'.val.toNat = 90 := rfl
    have hz : 'z'.val.toNat = 122 := rfl
    have h9 : '9'.val.toNat = 57 := rfl
    have hsorts : (decide (c.val ≥ 'A'.val ∧ c.val ≤ 'Z'.val) ||
        (decide (c.val ≥ 'a'.val) && decide (c.val ≤ 'z'.val)) ||
        (decide (c.val ≥ '0'.val) && decide (c.val ≤ '9'.val))) = true := h
    simp only [Bool.or_eq_true, Bool.and_eq_true, decide_eq_true_eq, ge_iff_le,
      UInt32.le_iff_toNat_le] at hsorts
    show c.val.toNat < 128
    omega
  · exact of_decide_eq_true (List.all_eq_true.mp hmarks c h)

theorem toNat_unit {c : Char} (h : c.toNat < 0x10000) : (unit c).toNat = c.toNat :=
  UInt16.toNat_ofNat_of_lt' h

theorem unit_eq_unit_iff {c d : Char} (hc : c.toNat < 0x10000) (hd : d.toNat < 0x10000) :
    unit c = unit d ↔ c = d := by
  rw [← UInt16.toNat_inj, toNat_unit hc, toNat_unit hd, Char.toNat_inj]

namespace Spells

variable {us vs : List UInt16} {bs cs : List Nat}

/-- A unit of a segment is that of a plain character, or a `%`. -/
theorem plain_of_mem (h : Spells us bs) {u : UInt16} (hu : u ∈ us) :
    u = unit '%' ∨ ∃ c, isPlain c = true ∧ u = unit c := by
  induction h with
  | nil => cases hu
  | plain hc _ ih =>
    rcases List.mem_cons.mp hu with rfl | hu
    · exact .inr ⟨_, hc, rfl⟩
    · exact ih hu
  | triple hb _ ih =>
    rcases List.mem_append.mp hu with hu | hu
    · simp only [Percent.triple, List.map_cons, List.map_nil, List.mem_cons, List.not_mem_nil,
        or_false] at hu
      rcases hu with rfl | rfl | rfl
      · exact .inl rfl
      · exact .inr ⟨_, isPlain_hexDigit _ (by omega), rfl⟩
      · exact .inr ⟨_, isPlain_hexDigit _ (by omega), rfl⟩
    · exact ih hu

/-- A segment holds no unit that could end it. -/
theorem unit_notMem (h : Spells us bs) {d : Char} (hd : d.toNat < 0x10000)
    (hplain : isPlain d = false) (hpercent : d ≠ '%') : unit d ∉ us := by
  intro hmem
  rcases h.plain_of_mem hmem with hu | ⟨c, hc, hu⟩
  · exact hpercent ((unit_eq_unit_iff hd (by decide)).mp hu)
  · have hlt := toNat_of_isPlain hc
    obtain rfl := (unit_eq_unit_iff hd (by omega)).mp hu
    rw [hplain] at hc
    cases hc

/-- A segment is read as the bytes that it stands for. -/
theorem bytes?_eq (h : Spells us bs) : bytes? us = some bs := by
  induction h with
  | nil => rfl
  | @plain c us bs hc _ ih =>
    have hlt := toNat_of_isPlain hc
    have hpercent : unit c ≠ unit '%' := by
      rw [Ne, unit_eq_unit_iff (by omega) (by decide)]
      rintro rfl
      cases hc
    have hunit : (unit c).toNat = c.toNat := toNat_unit (by omega)
    have hascii : unit c < 128 := by
      rw [UInt16.lt_iff_toNat_lt, hunit]
      exact hlt
    unfold bytes?
    rw [if_neg hpercent, if_pos hascii, hunit, ih]
    rfl
  | @triple b us bs hb _ ih =>
    have hvalue : 16 * (b / 16) + b % 16 = b := by omega
    simp only [Percent.triple, List.map_cons, List.map_nil, List.cons_append, List.nil_append]
    unfold bytes?
    simp only [if_true, hexValue?_hexDigit _ (by omega : b / 16 < 16),
      hexValue?_hexDigit _ (by omega : b % 16 < 16), Option.bind_eq_bind, Option.bind_some, hvalue,
      ih]

theorem append (hu : Spells us bs) (hv : Spells vs cs) : Spells (us ++ vs) (bs ++ cs) := by
  induction hu with
  | nil => exact hv
  | plain hc _ ih => exact .plain hc ih
  | triple hb _ ih =>
    rw [List.append_assoc]
    exact .triple hb ih

theorem triples (hbs : ∀ b ∈ bs, b < 256) : Spells ((bs.flatMap Percent.triple).map unit) bs := by
  induction bs with
  | nil => exact .nil
  | cons b bs ih =>
    obtain ⟨hb, hbs⟩ := List.forall_mem_cons.mp hbs
    rw [List.flatMap_cons, List.map_append]
    exact .triple hb (ih hbs)

end Spells

/-! ## The segment of a text -/

/-- A character stands in a segment for its bytes. -/
theorem spells_encodeChar (c : Char) : Spells ((encodeChar c).map unit) (Utf8.encodeChar c) := by
  unfold encodeChar
  split
  · rename_i hplain
    have hbytes : Utf8.encodeChar c = [c.toNat] := if_pos (toNat_of_isPlain hplain)
    rw [hbytes]
    exact .plain hplain .nil
  · exact .triples fun b => Utf8.lt_of_mem_encodeChar

theorem spells_encode (cs : List Char) : Spells ((encode cs).map unit) (Utf8.encode cs) := by
  unfold encode Utf8.encode
  induction cs with
  | nil => exact .nil
  | cons c cs ih =>
    rw [List.flatMap_cons, List.map_append, List.flatMap_cons]
    exact (spells_encodeChar c).append ih

/-- What is written in a segment is in ASCII. -/
theorem toNat_of_mem_encode {cs : List Char} {c : Char} (h : c ∈ encode cs) : c.toNat < 128 := by
  obtain ⟨d, -, hd⟩ := List.mem_flatMap.mp h
  unfold encodeChar at hd
  split at hd
  · rename_i hplain
    rw [List.mem_singleton.mp hd]
    exact toNat_of_isPlain hplain
  · obtain ⟨b, hb, hc⟩ := List.mem_flatMap.mp hd
    have hlt := Utf8.lt_of_mem_encodeChar hb
    simp only [triple, List.mem_cons, List.not_mem_nil, or_false] at hc
    rcases hc with rfl | rfl | rfl
    · decide
    · exact toNat_of_isPlain (isPlain_hexDigit _ (by omega))
    · exact toNat_of_isPlain (isPlain_hexDigit _ (by omega))

theorem units_ofChars_encode (cs : List Char) :
    (ofChars (encode cs)).units = (encode cs).map unit := by
  have hunits : ∀ c ∈ encode cs, unitsOfChar c = [unit c] := fun c hc =>
    if_pos (Nat.lt_trans (toNat_of_mem_encode hc) (by decide))
  rw [ofChars, List.flatMap_def, List.map_congr_left hunits, ← List.flatMap_def,
    ← List.map_eq_flatMap]

/-- **A text without lone surrogates has a segment that stands for it in UTF-8** and is read as
it. -/
theorem segment_spec {t : Text} {cs : List Char} (h : t.chars? = some cs) :
    ∃ segment, segment? t = some segment ∧
      Spells segment.units ((String.ofList cs).toUTF8.data.toList.map UInt8.toNat) ∧
      decode? segment = some t := by
  have hspells := spells_encode cs
  refine ⟨ofChars (encode cs), ?_, ?_, ?_⟩
  · rw [segment?, h]
    rfl
  · rw [units_ofChars_encode, ← Utf8.encode_eq_toUTF8]
    exact hspells
  · rw [decode?, units_ofChars_encode, hspells.bytes?_eq, Option.map_some, Utf8.decode_encode]
    exact congrArg some (Text.ext (units_of_chars? h).symm)

/-- **Texts with one segment are the same.** -/
theorem segment?_injective {s t segment : Text} (hs : segment? s = some segment)
    (ht : segment? t = some segment) : s = t := by
  have hread : ∀ {u : Text}, segment? u = some segment → decode? segment = some u := by
    intro u hu
    obtain ⟨cs, hcs, -⟩ := Option.map_eq_some_iff.mp hu
    obtain ⟨segment', hsegment, -, hdecode⟩ := segment_spec hcs
    rw [Option.some.inj (hu.symm.trans hsegment)]
    exact hdecode
  exact Option.some.inj ((hread hs).symm.trans (hread ht))

end Percent

end Honeycomb.Text
