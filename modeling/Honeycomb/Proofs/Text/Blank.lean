import Mathlib.Data.List.TakeWhile
import Honeycomb.Text.Blank

/-!
# Texts without the blanks around them

* `Trimmed` — what is left of a text when the blanks on either side of it are gone.
* `trimmed_iff` — `trim` gives it, and nothing else is it.
* `trim_append`, `trim_of_blank` — blanks in front of a text make no difference, and of blanks
  alone nothing is left.
-/

set_option autoImplicit false

namespace Honeycomb.Text

/-- Units are all blank. -/
def Blank (us : List UInt16) : Prop := ∀ u ∈ us, isBlank u = true

/-- `ws` is what is left of `us` without the blanks on either side: there are only blanks around it,
and it neither begins nor ends with one. -/
structure Trimmed (us ws : List UInt16) : Prop where
  around : ∃ before behind, us = before ++ ws ++ behind ∧ Blank before ∧ Blank behind
  first : ∀ u, ws.head? = some u → isBlank u = false
  last : ∀ u, ws.getLast? = some u → isBlank u = false

variable {us ws blanks : List UInt16}

/-! ## One side -/

theorem trimLeft_append (h : Blank blanks) (us : List UInt16) :
    trimLeft (blanks ++ us) = trimLeft us :=
  List.dropWhile_append_of_pos h

theorem trimLeft_eq_self (h : ∀ u, us.head? = some u → isBlank u = false) : trimLeft us = us := by
  cases us with
  | nil => rfl
  | cons u us => rw [trimLeft, List.dropWhile_cons_of_neg (by simp [h u rfl])]

theorem trimLeft_spec (us : List UInt16) :
    (∃ before, Blank before ∧ us = before ++ trimLeft us) ∧
      ∀ u, (trimLeft us).head? = some u → isBlank u = false := by
  refine ⟨⟨us.takeWhile isBlank, ?_, List.takeWhile_append_dropWhile.symm⟩, ?_⟩
  · intro u hu
    exact List.mem_takeWhile_imp hu
  · intro u hu
    have hnot := List.head?_dropWhile_not isBlank us
    rw [show (us.dropWhile isBlank).head? = some u from hu] at hnot
    exact hnot

/-- The other side is this side of what is turned round. -/
theorem trimRight_eq (us : List UInt16) : trimRight us = (trimLeft us.reverse).reverse := rfl

theorem trimRight_append (h : Blank blanks) (us : List UInt16) :
    trimRight (us ++ blanks) = trimRight us := by
  have hturned : Blank blanks.reverse := fun u hu => h u (List.mem_reverse.mp hu)
  rw [trimRight_eq, List.reverse_append, trimLeft_append hturned, trimRight_eq]

theorem trimRight_eq_self (h : ∀ u, us.getLast? = some u → isBlank u = false) :
    trimRight us = us := by
  rw [trimRight_eq, trimLeft_eq_self (by rwa [List.head?_reverse]), List.reverse_reverse]

theorem trimRight_spec (us : List UInt16) :
    (∃ behind, Blank behind ∧ us = trimRight us ++ behind) ∧
      ∀ u, (trimRight us).getLast? = some u → isBlank u = false := by
  obtain ⟨⟨before, hbefore, hsplit⟩, hhead⟩ := trimLeft_spec us.reverse
  refine ⟨⟨before.reverse, fun u hu => hbefore u (List.mem_reverse.mp hu), ?_⟩, ?_⟩
  · rw [trimRight_eq, ← List.reverse_append, ← hsplit, List.reverse_reverse]
  · rwa [trimRight_eq, List.getLast?_reverse]

/-! ## Both sides -/

theorem trim_append (h : Blank blanks) (us : List UInt16) : trim (blanks ++ us) = trim us := by
  rw [trim, trimLeft_append h, trim]

theorem trim_of_blank (h : Blank us) : trim us = [] := by
  rw [← List.append_nil us, trim_append h]
  rfl

theorem trimmed_trim (us : List UInt16) : Trimmed us (trim us) := by
  obtain ⟨⟨before, hbefore, hsplit⟩, hhead⟩ := trimLeft_spec us
  obtain ⟨⟨behind, hbehind, hsplit'⟩, hlast⟩ := trimRight_spec (trimLeft us)
  refine ⟨⟨before, behind, ?_, hbefore, hbehind⟩, ?_, hlast⟩
  · rw [trim, List.append_assoc, ← hsplit', ← hsplit]
  · intro u hu
    -- what is left begins as it did before its end was cut off
    apply hhead
    rw [hsplit', ← trim, List.head?_append, hu, Option.some_or]

theorem mem_of_mem_trim {u : UInt16} (h : u ∈ trim us) : u ∈ us := by
  obtain ⟨before, behind, hsplit, -⟩ := (trimmed_trim us).around
  rw [hsplit]
  exact List.mem_append_left _ (List.mem_append_right _ h)

theorem Trimmed.eq_trim (h : Trimmed us ws) : ws = trim us := by
  obtain ⟨⟨before, behind, rfl, hbefore, hbehind⟩, hfirst, hlast⟩ := h
  rw [List.append_assoc, trim_append hbefore]
  cases ws with
  | nil => exact (trim_of_blank hbehind).symm
  | cons w ws =>
    have hleft : trimLeft (w :: ws ++ behind) = w :: ws ++ behind := trimLeft_eq_self hfirst
    rw [trim, hleft, trimRight_append hbehind, trimRight_eq_self hlast]

/-- **What is left without the blanks** is what `trim` gives. -/
theorem trimmed_iff : Trimmed us ws ↔ ws = trim us := by
  constructor
  · exact Trimmed.eq_trim
  · rintro rfl
    exact trimmed_trim us

end Honeycomb.Text
