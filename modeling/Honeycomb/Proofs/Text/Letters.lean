import Mathlib.Tactic.Linarith
import Honeycomb.Text.Letters

/-!
# A text is made of its letters

* `units_ofUnit`, `units_charOfPair` — a letter has the units that it was put together from.
* `flatMap_units_letters` — the units of the letters of a text, one after the other, are the text.
* `units_of_chars?` — a text without lone surrogates has the units of its characters.
* `surrogate_of_lone` — the units that are letters by themselves are surrogates.
* `intercalate_cons` — a text between any two of some texts stands in front of all but the first.
* `letters_ofString_append` — a string in front of a text is letters of its own.
* `toString_ofString_append`, `toString_append_ofString` — a string in a text is read back as it is,
  whatever stands around it.
-/

set_option autoImplicit false

namespace Honeycomb.Text

theorem toNat_ofNat {n : Nat} (h : n.isValidChar) : (Char.ofNat n).toNat = n := by
  rw [Char.ofNat, dif_pos h]
  rfl

theorem isHighSurrogate_iff {u : UInt16} :
    isHighSurrogate u = true ↔ 0xD800 ≤ u.toNat ∧ u.toNat < 0xDC00 := by
  simp [isHighSurrogate, UInt16.le_iff_toNat_le, UInt16.lt_iff_toNat_lt]

theorem isLowSurrogate_iff {u : UInt16} :
    isLowSurrogate u = true ↔ 0xDC00 ≤ u.toNat ∧ u.toNat < 0xE000 := by
  simp [isLowSurrogate, UInt16.le_iff_toNat_le, UInt16.lt_iff_toNat_lt]

theorem unit_eq_of_toNat {u : UInt16} {n : Nat} (h : n = u.toNat) : UInt16.ofNat n = u := by
  rw [h, UInt16.ofNat_toNat]

/-- No character is beyond the last code point. -/
theorem toNat_lt_of_char (c : Char) : c.toNat < 0x110000 := by
  rcases c.valid with h | h
  · exact Nat.lt_trans h (by decide)
  · exact h.2

/-- A unit by itself. -/
theorem units_ofUnit (u : UInt16) : (Letter.ofUnit u).units = [u] := by
  unfold Letter.ofUnit
  split
  · rfl
  · rename_i hneither
    rw [Bool.or_eq_true, isHighSurrogate_iff, isLowSurrogate_iff] at hneither
    have hlt := u.toNat_lt
    have hvalid : (Char.ofNat u.toNat).toNat = u.toNat :=
      toNat_ofNat (by unfold Nat.isValidChar; omega)
    rw [Letter.units, unitsOfChar, hvalid, if_pos (by omega), UInt16.ofNat_toNat]

/-- Two surrogates that make a character. -/
theorem units_charOfPair {u v : UInt16} (hu : isHighSurrogate u = true)
    (hv : isLowSurrogate v = true) : unitsOfChar (charOfPair u v) = [u, v] := by
  rw [isHighSurrogate_iff] at hu
  rw [isLowSurrogate_iff] at hv
  have hvalid : (charOfPair u v).toNat =
      0x10000 + (u.toNat - 0xD800) * 0x400 + (v.toNat - 0xDC00) :=
    toNat_ofNat (by unfold Nat.isValidChar; omega)
  rw [unitsOfChar, hvalid]
  rw [if_neg (by omega), unit_eq_of_toNat (u := u) (by omega), unit_eq_of_toNat (u := v) (by omega)]

theorem flatMap_units_cons (u : UInt16) (ls : List Letter) :
    (Letter.cons u ls).flatMap Letter.units = u :: ls.flatMap Letter.units := by
  unfold Letter.cons
  split
  · rename_i v rest
    split
    · rename_i hpair
      rw [Bool.and_eq_true] at hpair
      rw [List.flatMap_cons, Letter.units, units_charOfPair hpair.1 hpair.2]
      rfl
    · rw [List.flatMap_cons, units_ofUnit]
      rfl
  · rw [List.flatMap_cons, units_ofUnit]
    rfl

/-- Only surrogates stand alone among the letters of a text. -/
theorem surrogate_of_lone {t : Text} {u : UInt16} (h : .lone u ∈ t.letters) :
    0xD800 ≤ u.toNat := by
  have hunit : ∀ v : UInt16, Letter.lone u = .ofUnit v → 0xD800 ≤ u.toNat := by
    intro v hv
    unfold Letter.ofUnit at hv
    split at hv
    · rename_i hsurrogate
      obtain rfl := Letter.lone.inj hv
      rw [Bool.or_eq_true, isHighSurrogate_iff, isLowSurrogate_iff] at hsurrogate
      omega
    · cases hv
  have hcons : ∀ (v : UInt16) (ls : List Letter), Letter.lone u ∈ Letter.cons v ls →
      Letter.lone u = .ofUnit v ∨ Letter.lone u ∈ ls := by
    intro v ls hmem
    unfold Letter.cons at hmem
    split at hmem
    · split at hmem
      · rw [List.mem_cons] at hmem
        exact .inr (List.mem_cons_of_mem _ (hmem.resolve_left nofun))
      · exact List.mem_cons.mp hmem
    · exact List.mem_cons.mp hmem
  unfold letters at h
  generalize t.units = us at h
  induction us with
  | nil => cases h
  | cons v us ih => exact (hcons v _ h).elim (hunit v) ih

/-- **A text is what its letters are, one after the other.** -/
theorem flatMap_units_letters (t : Text) : t.letters.flatMap Letter.units = t.units := by
  unfold letters
  induction t.units with
  | nil => rfl
  | cons u us ih => rw [List.foldr_cons, flatMap_units_cons, ih]

/-! ## Texts without lone surrogates -/

theorem letters_of_chars? {t : Text} {cs : List Char} (h : t.chars? = some cs) :
    t.letters = cs.map .char := by
  unfold chars? at h
  generalize t.letters = ls at h
  induction ls generalizing cs with
  | nil =>
    cases h
    rfl
  | cons l ls ih =>
    rw [List.mapM_cons] at h
    obtain ⟨c, hc, h⟩ := Option.bind_eq_some_iff.mp h
    obtain ⟨cs', hcs', h⟩ := Option.bind_eq_some_iff.mp h
    cases h
    cases l with
    | lone u => cases hc
    | char c' =>
      cases hc
      rw [ih hcs']
      rfl

theorem units_of_chars? {t : Text} {cs : List Char} (h : t.chars? = some cs) :
    t.units = cs.flatMap unitsOfChar := by
  rw [← flatMap_units_letters, letters_of_chars? h, List.flatMap_map]
  rfl

/-! ## Texts put together -/

theorem append_assoc (s t u : Text) : s ++ t ++ u = s ++ (t ++ u) :=
  Text.ext (List.append_assoc _ _ _)

@[simp] theorem append_empty (t : Text) : t ++ ofString "" = t := Text.ext (List.append_nil _)

@[simp] theorem join_nil : join [] = ofString "" := rfl

@[simp] theorem join_cons (t : Text) (ts : List Text) : join (t :: ts) = t ++ join ts := rfl

/-- Between any two texts is behind the first one and in front of every other. -/
theorem intercalate_cons (between t : Text) (ts : List Text) :
    intercalate between (t :: ts) = t ++ join (ts.map (between ++ ·)) := by
  induction ts generalizing t with
  | nil =>
    rw [List.map_nil, join_nil, append_empty]
    apply Text.ext
    show between.units.intercalate [t.units] = t.units
    rw [List.intercalate_singleton]
  | cons t' ts ih =>
    have hstep : intercalate between (t :: t' :: ts) =
        t ++ between ++ intercalate between (t' :: ts) :=
      Text.ext List.intercalate_cons_cons
    rw [hstep, ih, List.map_cons, join_cons, append_assoc, append_assoc]

/-! ## Strings inside texts -/

theorem isHighSurrogate_eq_false {u : UInt16} (h : u.toNat < 0xD800 ∨ 0xDC00 ≤ u.toNat) :
    isHighSurrogate u = false := by
  rw [Bool.eq_false_iff, Ne, isHighSurrogate_iff]
  omega

theorem isLowSurrogate_eq_false {u : UInt16} (h : u.toNat < 0xDC00 ∨ 0xE000 ≤ u.toNat) :
    isLowSurrogate u = false := by
  rw [Bool.eq_false_iff, Ne, isLowSurrogate_iff]
  omega

/-- Only a high surrogate can join what follows it. -/
theorem cons_of_not_high {u : UInt16} (h : isHighSurrogate u = false) (ls : List Letter) :
    Letter.cons u ls = .ofUnit u :: ls := by
  unfold Letter.cons
  split
  · rw [h, Bool.false_and, if_neg Bool.false_ne_true]
  · rfl

/-- Two surrogates that make a character join, whatever follows them. -/
theorem cons_pair {u v : UInt16} (hu : isHighSurrogate u = true) (hv : isLowSurrogate v = true)
    (ls : List Letter) : Letter.cons u (Letter.cons v ls) = .char (charOfPair u v) :: ls := by
  have hhigh : isHighSurrogate v = false := by
    rw [isLowSurrogate_iff] at hv
    exact isHighSurrogate_eq_false (.inr hv.1)
  rw [cons_of_not_high hhigh, Letter.ofUnit, hv, Bool.or_true, if_pos rfl, Letter.cons, hu, hv]
  rfl

/-- A character of the basic plane is no surrogate. -/
theorem cons_unit {c : Char} (h : c.toNat < 0x10000) (ls : List Letter) :
    Letter.cons (unit c) ls = .char c :: ls := by
  have hunit : (unit c).toNat = c.toNat := UInt16.toNat_ofNat_of_lt' h
  have hvalid : c.toNat < 0xD800 ∨ 0xE000 ≤ c.toNat := c.valid.imp_right And.left
  have hhigh : isHighSurrogate (unit c) = false := isHighSurrogate_eq_false (by omega)
  have hlow : isLowSurrogate (unit c) = false := isLowSurrogate_eq_false (by omega)
  rw [cons_of_not_high hhigh, Letter.ofUnit, hhigh, hlow, hunit, Char.ofNat_toNat]
  rfl

/-- The units of a character make this character again, whatever follows them. -/
theorem letters_unitsOfChar (c : Char) (us : List UInt16) :
    letters ⟨unitsOfChar c ++ us⟩ = .char c :: letters ⟨us⟩ := by
  have hlt := toNat_lt_of_char c
  unfold unitsOfChar
  dsimp only
  split
  · rename_i hbasic
    exact cons_unit hbasic _
  · generalize hhigh : UInt16.ofNat (0xD800 + (c.toNat - 0x10000) / 0x400) = high
    generalize hlow : UInt16.ofNat (0xDC00 + (c.toNat - 0x10000) % 0x400) = low
    have hhigh : high.toNat = 0xD800 + (c.toNat - 0x10000) / 0x400 := by
      rw [← hhigh]
      exact UInt16.toNat_ofNat_of_lt' (by norm_num; omega)
    have hlow : low.toNat = 0xDC00 + (c.toNat - 0x10000) % 0x400 := by
      rw [← hlow]
      exact UInt16.toNat_ofNat_of_lt' (by norm_num; omega)
    have hcode : 0x10000 + (high.toNat - 0xD800) * 0x400 + (low.toNat - 0xDC00) = c.toNat := by
      omega
    have hpair := cons_pair (isHighSurrogate_iff.mpr (by omega : 0xD800 ≤ high.toNat ∧ _))
      (isLowSurrogate_iff.mpr (by omega : 0xDC00 ≤ low.toNat ∧ _)) (letters ⟨us⟩)
    rw [charOfPair, hcode, Char.ofNat_toNat] at hpair
    exact hpair

theorem letters_ofString_append (s : String) (t : Text) :
    (ofString s ++ t).letters = s.toList.map .char ++ t.letters := by
  show letters ⟨s.toList.flatMap unitsOfChar ++ t.units⟩ = _
  induction s.toList with
  | nil => rfl
  | cons c cs ih =>
    rw [List.flatMap_cons, List.append_assoc, letters_unitsOfChar, ih]
    rfl

/-- What stands behind some letters joins none of them, unless it starts with a lone surrogate. -/
theorem cons_append {u : UInt16} {ls more : List Letter} (h : ∀ v rest, more ≠ .lone v :: rest) :
    Letter.cons u (ls ++ more) = Letter.cons u ls ++ more := by
  match ls, more with
  | .lone v :: ls, more =>
    rw [List.cons_append, Letter.cons, Letter.cons]
    split <;> rfl
  | .char c :: ls, more => rfl
  | [], .lone v :: rest => exact absurd rfl (h v rest)
  | [], .char c :: rest => rfl
  | [], [] => rfl

theorem letters_append {s t : Text} (h : ∀ v rest, t.letters ≠ .lone v :: rest) :
    (s ++ t).letters = s.letters ++ t.letters := by
  obtain ⟨us⟩ := s
  show (us ++ t.units).foldr Letter.cons [] = us.foldr Letter.cons [] ++ t.letters
  rw [List.foldr_append]
  induction us with
  | nil => rfl
  | cons u us ih => rw [List.foldr_cons, ih, cons_append h, List.foldr_cons]

theorem ofString_append (s t : String) : ofString (s ++ t) = ofString s ++ ofString t := by
  apply Text.ext
  show (s ++ t).toList.flatMap unitsOfChar = _
  rw [String.toList_append, List.flatMap_append]
  rfl

theorem toString_ofString_append (s : String) (t : Text) :
    (ofString s ++ t).toString = s ++ t.toString := by
  have hchars : (s.toList.map Letter.char).map (fun l => l.char?.getD replacement) = s.toList := by
    rw [List.map_map]
    exact List.map_id _
  rw [toString, letters_ofString_append, List.map_append, hchars, String.ofList_append,
    String.ofList_toList]
  rfl

@[simp] theorem toString_ofString (s : String) : (ofString s).toString = s := by
  rw [← append_empty (ofString s), toString_ofString_append]
  exact String.append_empty

/-- Before a string no surrogate waits for another one. -/
theorem toString_append_ofString {s : String} (hs : s ≠ "") (t u : Text) :
    (t ++ (ofString s ++ u)).toString = t.toString ++ (s ++ u.toString) := by
  rw [← toString_ofString_append, toString, letters_append, List.map_append, String.ofList_append]
  · rfl
  · intro v rest hlone
    obtain ⟨c, cs, hcs⟩ := List.exists_cons_of_ne_nil (mt String.toList_eq_nil_iff.mp hs)
    rw [letters_ofString_append, hcs] at hlone
    cases hlone

end Honeycomb.Text
