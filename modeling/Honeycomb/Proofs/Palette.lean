import Mathlib.Data.List.Basic
import Honeycomb.Palette
import Honeycomb.Proofs.Text.Blank

/-!
# Which texts are variables of a style

* `IsVariable` — the texts `var(--name, fallback)`, by their parts.  The blanks behind the comma may
  be taken as part of the fallback or not, so that a text has several ways to be one.
* `fallback?_eq_some_iff` — the fallback is found in these texts and in no others.
* `solid_spec` — the colour of such a text is its fallback without the blanks around it, whichever
  way it is taken apart; every other text is its own colour, and so is every colour.
-/

set_option autoImplicit false

namespace Honeycomb

open Text (unit unitsOf)

theorem Text.dropStart?_eq_some_iff {start us rest : List UInt16} :
    dropStart? start us = some rest ↔ us = start ++ rest := by
  induction start generalizing us with
  | nil => simp [dropStart?]
  | cons s start ih =>
    cases us with
    | nil => simp [dropStart?]
    | cons u us =>
      rw [dropStart?, List.cons_append, List.cons.injEq]
      split
      · rename_i same
        rw [ih, and_iff_right same.symm]
      · rename_i other
        simp [Ne.symm other]

namespace Palette

/-! ## The grammar -/

/-- What the names of variables are made of: letters, digits, the low line and the hyphen. -/
def nameUnits : List UInt16 :=
  unitsOf "ABCDEFGHIJKLMNOPQRSTUVWXYZabcdefghijklmnopqrstuvwxyz0123456789_-"

/-- Units are `var(--name,inside)`. -/
structure Encloses (us name inside : List UInt16) : Prop where
  written : us = unitsOf "var(--" ++ (name ++ unit ',' :: (inside ++ [unit ')']))
  named : name ≠ []
  letters : ∀ u ∈ name, u ∈ nameUnits
  filled : inside ≠ []
  unclosed : unit ')' ∉ inside

/-- A text is `var(--name,` and some blanks, a fallback and `)`. -/
structure IsVariable (color : Text) (name blanks fallback : List UInt16) : Prop where
  written : color.units =
    unitsOf "var(--" ++ name ++ [unit ','] ++ blanks ++ fallback ++ [unit ')']
  named : name ≠ []
  letters : ∀ u ∈ name, u ∈ nameUnits
  blank : Text.Blank blanks
  filled : fallback ≠ []
  unclosed : unit ')' ∉ fallback

/-! ## The reader -/

theorem isNameUnit_iff {u : UInt16} : isNameUnit u = true ↔ u ∈ nameUnits := by
  constructor
  · intro h
    have hsmall : u.toNat < 128 := by
      simp only [isNameUnit, Digits.isDigit, Bool.or_eq_true, Bool.and_eq_true, decide_eq_true_eq,
        beq_iff_eq, UInt16.le_iff_toNat_le] at h
      rcases h with (((⟨-, h⟩ | ⟨-, h⟩) | ⟨-, h⟩) | rfl) | rfl
      · exact Nat.lt_of_le_of_lt h (by decide)
      · exact Nat.lt_of_le_of_lt h (by decide)
      · exact Nat.lt_of_le_of_lt h (by decide)
      · decide
      · decide
    have hall : (List.range 128).all fun n =>
        !isNameUnit (.ofNat n) || nameUnits.contains (.ofNat n) := by decide +kernel
    have hone := List.all_eq_true.mp hall u.toNat (List.mem_range.mpr hsmall)
    rw [UInt16.ofNat_toNat, h] at hone
    simpa using hone
  · intro h
    have hall : nameUnits.all isNameUnit = true := by decide +kernel
    exact List.all_eq_true.mp hall u h

theorem beforeBracket?_eq_some_iff {us inside : List UInt16} :
    beforeBracket? us = some inside ↔
      us = inside ++ [unit ')'] ∧ inside ≠ [] ∧ unit ')' ∉ inside := by
  rw [beforeBracket?]
  rcases List.eq_nil_or_concat' us with rfl | ⟨start, last, rfl⟩
  · simp
  · rw [List.reverse_append, List.reverse_singleton, List.singleton_append]
    dsimp only
    rw [List.reverse_reverse, Option.ite_none_right_eq_some]
    simp only [List.isEmpty_reverse, List.contains_eq_mem, List.mem_reverse, Bool.and_eq_true,
      decide_eq_true_eq, Bool.not_eq_true', List.isEmpty_eq_false_iff, decide_eq_false_iff_not,
      Option.some.injEq, List.append_singleton_inj]
    constructor
    · rintro ⟨⟨⟨rfl, hfilled⟩, hunclosed⟩, rfl⟩
      exact ⟨⟨rfl, rfl⟩, hfilled, hunclosed⟩
    · rintro ⟨⟨rfl, rfl⟩, hfilled, hunclosed⟩
      exact ⟨⟨⟨rfl, hfilled⟩, hunclosed⟩, rfl⟩

theorem encloses_of_fallback? {us ws : List UInt16} (h : fallback? us = some ws) :
    ∃ name inside, Encloses us name inside ∧ ws = Text.trim inside := by
  simp only [fallback?, Option.bind_eq_bind, Option.bind_eq_some_iff] at h
  obtain ⟨rest, hstart, h⟩ := h
  split at h
  · cases h
  rename_i hname
  simp only [Option.bind_eq_some_iff, Option.some.injEq] at h
  obtain ⟨behind, hcomma, inside, hbracket, rfl⟩ := h
  rw [Text.dropStart?_eq_some_iff] at hstart hcomma
  rw [beforeBracket?_eq_some_iff] at hbracket
  obtain ⟨hbehind, hfilled, hunclosed⟩ := hbracket
  refine ⟨rest.takeWhile isNameUnit, inside, ⟨?_, ?_, ?_, hfilled, hunclosed⟩, rfl⟩
  · rw [hstart, ← hbehind, ← List.singleton_append, ← hcomma, List.takeWhile_append_dropWhile]
  · simpa using hname
  · intro u hu
    exact isNameUnit_iff.mp (List.mem_takeWhile_imp hu)

theorem Encloses.fallback?_eq {us name inside : List UInt16} (h : Encloses us name inside) :
    fallback? us = some (Text.trim inside) := by
  obtain ⟨rfl, hnamed, hletters, hfilled, hunclosed⟩ := h
  have hname : ∀ u ∈ name, isNameUnit u = true := fun u hu => isNameUnit_iff.mpr (hletters u hu)
  have hcomma : ¬ isNameUnit (unit ',') = true := by decide
  have htake : (name ++ unit ',' :: (inside ++ [unit ')'])).takeWhile isNameUnit = name := by
    rw [List.takeWhile_append_of_pos hname, List.takeWhile_cons_of_neg hcomma, List.append_nil]
  have hdrop : (name ++ unit ',' :: (inside ++ [unit ')'])).dropWhile isNameUnit =
      [unit ','] ++ (inside ++ [unit ')']) := by
    rw [List.dropWhile_append_of_pos hname, List.dropWhile_cons_of_neg hcomma]
    rfl
  have hbracket := beforeBracket?_eq_some_iff.mpr ⟨rfl, hfilled, hunclosed⟩
  have hempty : ¬ name.isEmpty = true := by simpa using hnamed
  rw [fallback?, Text.dropStart?_eq_some_iff.mpr rfl]
  simp only [Option.bind_eq_bind, Option.bind_some, htake, hdrop, if_neg hempty,
    Text.dropStart?_eq_some_iff.mpr rfl, hbracket]

/-- **The fallback is found exactly in the texts of this form.** -/
theorem fallback?_eq_some_iff {us ws : List UInt16} :
    fallback? us = some ws ↔ ∃ name inside, Encloses us name inside ∧ ws = Text.trim inside := by
  constructor
  · exact encloses_of_fallback?
  · rintro ⟨name, inside, h, rfl⟩
    exact h.fallback?_eq

/-! ## The colour -/

variable {color : Text} {name blanks fallback inside : List UInt16}

theorem solid_of_encloses (h : Encloses color.units name inside) :
    solid color = ⟨Text.trim inside⟩ := by
  rw [solid, h.fallback?_eq]

theorem solid_of_not_encloses (h : ∀ name inside, ¬ Encloses color.units name inside) :
    solid color = color := by
  rw [solid]
  split
  · rename_i found
    obtain ⟨name, inside, hform, -⟩ := fallback?_eq_some_iff.mp found
    exact absurd hform (h name inside)
  · rfl

theorem IsVariable.encloses (h : IsVariable color name blanks fallback) :
    Encloses color.units name (blanks ++ fallback) := by
  obtain ⟨hwritten, hnamed, hletters, hblank, hfilled, hunclosed⟩ := h
  refine ⟨?_, hnamed, hletters, by simp [hfilled], ?_⟩
  · rw [hwritten]
    simp only [List.append_assoc, List.cons_append, List.nil_append]
  · rw [List.mem_append]
    rintro (hin | hin)
    · exact absurd (hblank _ hin) (by decide)
    · exact hunclosed hin

theorem Encloses.isVariable (h : Encloses color.units name inside) :
    IsVariable color name [] inside := by
  refine ⟨?_, h.named, h.letters, by simp [Text.Blank], h.filled, h.unclosed⟩
  rw [h.written]
  simp only [List.append_assoc, List.cons_append, List.nil_append]

theorem IsVariable.solid_eq (h : IsVariable color name blanks fallback) :
    solid color = ⟨Text.trim fallback⟩ := by
  rw [solid_of_encloses h.encloses, Text.trim_append h.blank]

/-- What was found has no closing bracket, so that it is no variable itself. -/
theorem solid_solid (color : Text) : solid (solid color) = solid color := by
  by_cases h : ∃ name inside, Encloses color.units name inside
  · obtain ⟨name, inside, hform⟩ := h
    rw [solid_of_encloses hform]
    apply solid_of_not_encloses
    intro name' inside' hagain
    have hbracket : unit ')' ∈ Text.trim inside := by
      rw [show Text.trim inside = _ from hagain.written]
      simp
    exact hform.unclosed (Text.mem_of_mem_trim hbracket)
  · have hsame : solid color = color := solid_of_not_encloses (by simpa using h)
    rw [hsame, hsame]

/-- **The colour of a variable is its fallback.**  However a text is taken apart as `var(--name,`,
some blanks, a fallback without a closing bracket and `)`, its colour is what is left of the
fallback without the blanks around it; of blanks alone nothing is left.  A text that cannot be taken
apart like this is its own colour, and a colour is always its own. -/
theorem solid_spec (color : Text) :
    (∀ name blanks fallback, IsVariable color name blanks fallback →
        ∀ ws, Text.Trimmed fallback ws ↔ (solid color).units = ws) ∧
      (∀ name blanks fallback, IsVariable color name blanks fallback → Text.Blank fallback →
        solid color = "") ∧
      ((∀ name blanks fallback, ¬ IsVariable color name blanks fallback) → solid color = color) ∧
      solid (solid color) = solid color := by
  refine ⟨?_, ?_, ?_, solid_solid color⟩
  · intro name blanks fallback h ws
    rw [h.solid_eq, Text.trimmed_iff, eq_comm]
  · intro name blanks fallback h hblank
    rw [h.solid_eq, Text.trim_of_blank hblank]
    rfl
  · intro hnone
    exact solid_of_not_encloses fun name inside h => hnone name [] inside h.isVariable

-- The first bracket must be the last unit.
example : solid "var(--a, var(--b, c )" = "var(--b, c" ∧
    solid "var(--a, var(--b, c))" = "var(--a, var(--b, c))" := by decide +kernel

end Palette

end Honeycomb
