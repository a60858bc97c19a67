import Honeycomb.Json.Parser
import Honeycomb.Json.Printer
import Honeycomb.Proofs.Text.Letters

/-!
# A quoted text is read back

* `readText_escaped`, `readText_plain` — a unit is read back, whether it is written as four
  hexadecimal digits or stands for itself.
* `readText_escapeChar`, `readText_escapeLetter` — so is every letter, however it is escaped.
* `readText_quoted` — a text in quotes is read back, lone surrogates included, and reading stops
  behind the closing quote.
-/

set_option autoImplicit false

namespace Honeycomb.Json

open Text (unit unitsOfChar Letter)

/-! ## Four digits -/

theorem hexValue?_hexDigit : ∀ n < 16, hexValue? (hexDigit n) = some n := by decide

theorem readText_escaped (done : List UInt16) (u : UInt16) (rest : List UInt16) :
    readText done (escaped u ++ rest) = readText (u :: done) rest := by
  have hlt := u.toNat_lt
  have hunit : hexUnit? (hexDigit (u.toNat / 4096)) (hexDigit (u.toNat / 256 % 16))
      (hexDigit (u.toNat / 16 % 16)) (hexDigit (u.toNat % 16)) = some u := by
    rw [hexUnit?, hexValue?_hexDigit _ (by omega), hexValue?_hexDigit _ (by omega),
      hexValue?_hexDigit _ (by omega), hexValue?_hexDigit _ (by omega)]
    refine congrArg some ?_
    refine Text.unit_eq_of_toNat ?_
    omega
  simp only [escaped, List.cons_append, List.nil_append]
  rw [readText.eq_def]
  dsimp only
  rw [if_neg (by decide), if_pos rfl, if_pos rfl, hunit]

/-! ## Units that stand for themselves -/

theorem readText_plain {u : UInt16} (hquote : u ≠ unit '"') (hslash : u ≠ unit '\\')
    (hcontrol : 32 ≤ u) (done rest : List UInt16) :
    readText done (u :: rest) = readText (u :: done) rest := by
  rw [readText.eq_def]
  dsimp only
  rw [if_neg hquote, if_neg hslash, if_neg (UInt16.not_lt.mpr hcontrol)]

theorem readText_short {e n : UInt16} (hu : e ≠ unit 'u') (he : shortEscape? e = some n)
    (done rest : List UInt16) :
    readText done (unit '\\' :: e :: rest) = readText (n :: done) rest := by
  rw [readText.eq_def]
  dsimp only
  rw [if_neg (by decide), if_pos rfl, if_neg hu, he]

/-! ## Letters -/

/-- The units of a character that is not escaped are neither quotes nor backslashes nor controls. -/
theorem readText_unitsOfChar {c : Char} (hquote : c ≠ '"') (hslash : c ≠ '\\')
    (hcontrol : 32 ≤ c.toNat) (done rest : List UInt16) :
    readText done (unitsOfChar c ++ rest) = readText ((unitsOfChar c).reverse ++ done) rest := by
  have hq : c.toNat ≠ 34 := fun h => hquote (Char.toNat_inj.mp h)
  have hs : c.toNat ≠ 92 := fun h => hslash (Char.toNat_inj.mp h)
  have hplain : ∀ n : Nat, 32 ≤ n → n < 65536 → n ≠ 34 → n ≠ 92 → ∀ done rest,
      readText done (UInt16.ofNat n :: rest) = readText (UInt16.ofNat n :: done) rest := by
    intro n hlow hhigh hn34 hn92
    have hn : (UInt16.ofNat n).toNat = n := by
      rw [UInt16.toNat_ofNat']
      omega
    refine readText_plain ?_ ?_ ?_
    · intro h
      have := congrArg UInt16.toNat h
      rw [hn] at this
      exact hn34 this
    · intro h
      have := congrArg UInt16.toNat h
      rw [hn] at this
      exact hn92 this
    · rw [UInt16.le_iff_toNat_le, hn]
      exact hlow
  have hmax := Text.toNat_lt_of_char c
  unfold unitsOfChar
  dsimp only
  split
  · rename_i hlt
    exact hplain c.toNat hcontrol hlt hq hs done rest
  · simp only [List.cons_append, List.nil_append, List.reverse_cons, List.reverse_nil]
    rw [hplain _ (by omega) (by omega) (by omega) (by omega),
      hplain _ (by omega) (by omega) (by omega) (by omega)]

/-- The characters that are escaped by a letter. -/
def HasLetter (c : Char) : Prop :=
  c = '"' ∨ c = '\\' ∨ c.toNat = 8 ∨ c = '\t' ∨ c = '\n' ∨ c.toNat = 12 ∨ c = '\r'

theorem escapeChar_of_hasLetter {c : Char} (h : HasLetter c) :
    ∃ e, escapeChar c = [unit '\\', e] ∧ e ≠ unit 'u' ∧ shortEscape? e = some (unit c) ∧
      unitsOfChar c = [unit c] := by
  have hback : c = Char.ofNat c.toNat := (Char.ofNat_toNat c).symm
  rcases h with rfl | rfl | h | rfl | rfl | h | rfl
  case inr.inr.inl | inr.inr.inr.inr.inr.inl =>
    rw [h] at hback
    subst hback
    exact ⟨_, rfl, by decide, by decide, by decide⟩
  all_goals exact ⟨_, rfl, by decide, by decide, by decide⟩

/-- A character is escaped by a letter or by its number, or stands for itself. -/
theorem escapeChar_cases (c : Char) :
    HasLetter c ∨
      (escapeChar c = escaped (unit c) ∧ unitsOfChar c = [unit c] ∧ c.toNat < 32) ∨
      (escapeChar c = unitsOfChar c ∧ c ≠ '"' ∧ c ≠ '\\' ∧ 32 ≤ c.toNat) := by
  by_cases hletter : HasLetter c
  · exact .inl hletter
  · right
    simp only [HasLetter, not_or] at hletter
    obtain ⟨hquote, hslash, h8, ht, hn, h12, hr⟩ := hletter
    unfold escapeChar
    rw [if_neg hquote, if_neg hslash, if_neg h8, if_neg ht, if_neg hn, if_neg h12, if_neg hr]
    split
    · rename_i hcontrol
      left
      refine ⟨rfl, ?_, hcontrol⟩
      rw [unitsOfChar, if_pos (by omega)]
      rfl
    · rename_i hcontrol
      exact .inr ⟨rfl, hquote, hslash, Nat.le_of_not_lt hcontrol⟩

/-- **A character is read back**, however it is escaped. -/
theorem readText_escapeChar (c : Char) (done rest : List UInt16) :
    readText done (escapeChar c ++ rest) = readText ((unitsOfChar c).reverse ++ done) rest := by
  rcases escapeChar_cases c with hletter | ⟨hc, hunits, -⟩ | ⟨hc, hquote, hslash, hcontrol⟩
  · obtain ⟨e, hc, hu, he, hunits⟩ := escapeChar_of_hasLetter hletter
    rw [hc, hunits]
    exact readText_short hu he done rest
  · rw [hc, hunits, readText_escaped]
    rfl
  · rw [hc]
    exact readText_unitsOfChar hquote hslash hcontrol done rest

theorem readText_escapeLetter (l : Letter) (done rest : List UInt16) :
    readText done (escapeLetter l ++ rest) = readText (l.units.reverse ++ done) rest := by
  cases l with
  | char c => exact readText_escapeChar c done rest
  | lone u => exact readText_escaped done u rest

theorem readText_letters (ls : List Letter) (done rest : List UInt16) :
    readText done (ls.flatMap escapeLetter ++ rest) =
      readText ((ls.flatMap Letter.units).reverse ++ done) rest := by
  induction ls generalizing done with
  | nil => rfl
  | cons l ls ih =>
    rw [List.flatMap_cons, List.append_assoc, readText_escapeLetter, ih, List.flatMap_cons,
      List.reverse_append, List.append_assoc]

/-- **A quoted text is read back**, up to its closing quote. -/
theorem readText_quoted (t : Text) (rest : List UInt16) :
    readText [] (t.letters.flatMap escapeLetter ++ unit '"' :: rest) = some (t, rest) := by
  rw [readText_letters, Text.flatMap_units_letters, List.append_nil, readText.eq_def]
  dsimp only
  rw [if_pos rfl, List.reverse_reverse]

end Honeycomb.Json
