import Mathlib.Data.List.Infix
import Honeycomb.Text.Replace

/-!
# Occurrences of a part

* `FirstAt` — the place at which a part occurs first in a list; a part that occurs has one
  (`exists_firstAt`).
* `replaceFirst_of_firstAt`, `replaceFirst_of_not_infix` — replacing puts the new part at that
  place, and does nothing to a list without one.
* `Apart` — two parts of which neither holds the other or overlaps with it.
* `Apart.split` — around the one, the other occurs on either side of it and nowhere else, so that
  putting a third part in its place leaves the first occurrence where it was
  (`FirstAt.swap_before`, `FirstAt.swap_behind`).
-/

set_option autoImplicit false

namespace Honeycomb.Text

variable {α : Type} {part us before after : List α}

/-! ## The first occurrence -/

/-- A part occurs between `before` and `after`, and nowhere sooner. -/
structure FirstAt (part us before after : List α) : Prop where
  split : us = before ++ part ++ after
  first : ∀ x y, us = x ++ part ++ y → before.length ≤ x.length

theorem firstAt_here (h : part <+: us) : ∃ after, FirstAt part us [] after := by
  obtain ⟨after, rfl⟩ := h
  exact ⟨after, rfl, fun _ _ _ => Nat.zero_le _⟩

theorem FirstAt.cons {u : α} (h : FirstAt part us before after) (hu : ¬ part <+: u :: us) :
    FirstAt part (u :: us) (u :: before) after := by
  refine ⟨by rw [h.split]; rfl, fun x y heq => ?_⟩
  cases x with
  | nil => exact absurd ⟨y, heq.symm⟩ hu
  | cons v x => exact Nat.succ_le_succ (h.first x y (List.cons.inj heq).2)

theorem FirstAt.of_cons {u v : α} (h : FirstAt part (u :: us) (v :: before) after) :
    v = u ∧ FirstAt part us before after := by
  have hsplit := List.cons.inj h.split
  refine ⟨hsplit.1.symm, hsplit.2, fun x y heq => ?_⟩
  exact Nat.le_of_succ_le_succ (h.first (u :: x) y (by rw [heq]; rfl))

/-- A part that occurs has a first occurrence. -/
theorem exists_firstAt (h : part <:+: us) : ∃ before after, FirstAt part us before after := by
  induction us with
  | nil =>
    obtain ⟨after, hfirst⟩ := firstAt_here (List.infix_nil.mp h ▸ List.nil_prefix)
    exact ⟨[], after, hfirst⟩
  | cons u us ih =>
    by_cases hhere : part <+: u :: us
    · obtain ⟨after, hfirst⟩ := firstAt_here hhere
      exact ⟨[], after, hfirst⟩
    · obtain ⟨before, after, hfirst⟩ := ih ((List.infix_cons_iff.mp h).resolve_left hhere)
      exact ⟨u :: before, after, hfirst.cons hhere⟩

section Replacing

variable [BEq α] [LawfulBEq α]

/-- **The first occurrence is replaced**, and nothing else. -/
theorem replaceFirst_of_firstAt (h : FirstAt part us before after) (new : List α) :
    replaceFirst part new us = before ++ new ++ after := by
  induction us generalizing before with
  | nil =>
    obtain ⟨hfront, rfl⟩ := List.append_eq_nil_iff.mp h.split.symm
    obtain ⟨rfl, rfl⟩ := List.append_eq_nil_iff.mp hfront
    rw [List.nil_append, List.append_nil]
    rfl
  | cons u us ih =>
    rw [replaceFirst]
    by_cases hhere : part <+: u :: us
    · rw [if_pos (List.isPrefixOf_iff_prefix.mpr hhere)]
      obtain ⟨rest, hrest⟩ := hhere
      have hbefore : before = [] := List.eq_nil_of_length_eq_zero
        (Nat.le_zero.mp (h.first [] rest hrest.symm))
      subst hbefore
      rw [h.split, List.nil_append, List.nil_append, List.drop_left]
    · rw [if_neg (mt List.isPrefixOf_iff_prefix.mp hhere)]
      cases before with
      | nil => exact absurd ⟨after, h.split.symm⟩ hhere
      | cons v before =>
        obtain ⟨rfl, hfirst⟩ := h.of_cons
        rw [ih hfirst]
        rfl

theorem replaceFirst_of_not_infix (h : ¬ part <:+: us) (new : List α) :
    replaceFirst part new us = us := by
  induction us with
  | nil =>
    rw [replaceFirst, if_neg]
    intro hempty
    exact h (List.isEmpty_iff.mp hempty ▸ List.infix_refl [])
  | cons u us ih =>
    rw [List.infix_cons_iff, not_or] at h
    rw [replaceFirst, if_neg (mt List.isPrefixOf_iff_prefix.mp h.1), ih h.2]

end Replacing

/-! ## Parts that keep apart -/

variable {s t : List α}

/-- Neither part holds the other, and neither starts inside of the other and ends behind it. -/
structure Apart (s t : List α) : Prop where
  not_within : ¬ s <:+: t
  not_around : ¬ t <:+: s
  ends : ∀ x ∈ s.tails, x <+: t → x = []
  starts : ∀ x ∈ s.inits, x <:+ t → x = []

instance [DecidableEq α] : Decidable (Apart s t) :=
  decidable_of_iff (¬ s <:+: t ∧ ¬ t <:+: s ∧ (∀ x ∈ s.tails, x <+: t → x = []) ∧
      ∀ x ∈ s.inits, x <:+ t → x = [])
    ⟨fun ⟨h₁, h₂, h₃, h₄⟩ => ⟨h₁, h₂, h₃, h₄⟩, fun h => ⟨h.1, h.2, h.3, h.4⟩⟩

/-- **What keeps apart from a part occurs on either side of it.** -/
theorem Apart.split (h : Apart s t) {a b x y : List α} (heq : a ++ s ++ b = x ++ t ++ y) :
    (∃ m, x = a ++ s ++ m ∧ b = m ++ t ++ y) ∨ ∃ m, a = x ++ t ++ m ∧ y = m ++ s ++ b := by
  rw [List.append_assoc, List.append_assoc] at heq
  rcases List.append_eq_append_iff.mp heq with ⟨d, rfl, hd⟩ | ⟨d, rfl, hd⟩
  · -- `t` starts where `s` does, or behind that
    rcases List.append_eq_append_iff.mp hd with ⟨m, rfl, hm⟩ | ⟨c, hs, hc⟩
    · exact .inl ⟨m, by rw [List.append_assoc], by rw [hm, List.append_assoc]⟩
    · rcases List.append_eq_append_iff.mp hc with ⟨e, he, -⟩ | ⟨e, ht, hb⟩
      · exact absurd ⟨d, e, by rw [hs, he, List.append_assoc]⟩ h.not_around
      · obtain rfl := h.ends c ((List.mem_tails _ _).mpr ⟨d, hs.symm⟩) ⟨e, ht.symm⟩
        refine .inl ⟨[], ?_, ?_⟩
        · rw [hs, List.append_nil, List.append_nil]
        · rw [hb, ht]
          rfl
  · -- `t` starts before `s` does
    rcases List.append_eq_append_iff.mp hd with ⟨m, rfl, hm⟩ | ⟨c, ht, hc⟩
    · exact .inr ⟨m, by rw [List.append_assoc], by rw [hm, List.append_assoc]⟩
    · rcases List.append_eq_append_iff.mp hc with ⟨e, he, -⟩ | ⟨e, hs, hy⟩
      · exact absurd ⟨d, e, by rw [ht, he, List.append_assoc]⟩ h.not_within
      · obtain rfl := h.starts c ((List.mem_inits _ _).mpr ⟨e, hs.symm⟩) ⟨d, ht.symm⟩
        refine .inr ⟨[], ?_, ?_⟩
        · rw [ht, List.append_nil, List.append_nil]
        · rw [hy, hs]
          rfl

theorem Apart.infix_iff (h : Apart s t) {a b : List α} :
    t <:+: a ++ s ++ b ↔ t <:+: a ∨ t <:+: b := by
  constructor
  · rintro ⟨x, y, heq⟩
    rcases h.split heq.symm with ⟨m, -, hb⟩ | ⟨m, ha, -⟩
    · exact .inr ⟨m, y, hb.symm⟩
    · exact .inl ⟨x, m, ha.symm⟩
  · rintro (ha | hb)
    · exact ha.trans ((List.prefix_append a s).trans (List.prefix_append _ b)).isInfix
    · exact hb.trans (List.suffix_append _ b).isInfix

theorem Apart.length_pos (h : Apart s t) : 0 < t.length := by
  rw [List.length_pos_iff]
  rintro rfl
  exact h.not_around (List.nil_infix)

variable {r a b m x y : List α}

/-- With another part in front of it, the first occurrence is still the first one. -/
theorem FirstAt.swap_before (hr : Apart r t)
    (h : FirstAt t (a ++ s ++ (m ++ t ++ y)) (a ++ s ++ m) y) :
    FirstAt t (a ++ r ++ (m ++ t ++ y)) (a ++ r ++ m) y := by
  refine ⟨by simp only [List.append_assoc], fun x z heq => ?_⟩
  rcases hr.split heq with ⟨n, rfl, hn⟩ | ⟨n, ha, -⟩
  · have hle := h.first (a ++ s ++ n) z (by rw [hn]; simp only [List.append_assoc])
    simp only [List.length_append] at hle ⊢
    omega
  · -- an occurrence in front of the part was there before
    have hle := h.first x (n ++ s ++ (m ++ t ++ y)) (by rw [ha]; simp only [List.append_assoc])
    have hlength := congrArg List.length ha
    have hpos := hr.length_pos
    simp only [List.length_append] at hle hlength
    omega

/-- With another part behind it, the first occurrence is where it was. -/
theorem FirstAt.swap_behind (hr : Apart r t)
    (h : FirstAt t (x ++ t ++ m ++ s ++ b) x (m ++ s ++ b)) :
    FirstAt t (x ++ t ++ m ++ r ++ b) x (m ++ r ++ b) := by
  refine ⟨by simp only [List.append_assoc], fun z w heq => ?_⟩
  rcases hr.split heq with ⟨n, rfl, -⟩ | ⟨n, hfront, -⟩
  · simp only [List.length_append]
    omega
  · exact h.first z (n ++ s ++ b) (by rw [hfront]; simp only [List.append_assoc])

/-! ## Parts made of others -/

/-- A part that is missing on both sides of a unit is missing altogether, if it has no such unit. -/
theorem not_infix_append_cons {u : α} (hu : u ∉ t) (ha : ¬ t <:+: a) (hb : ¬ t <:+: b) :
    ¬ t <:+: a ++ u :: b := by
  have hhere : ∀ x, x <:+: t → x <+: u :: b → x = [] := by
    intro x hx h
    rcases List.prefix_cons_iff.mp h with rfl | ⟨y, rfl, -⟩
    · rfl
    · exact absurd (hx.subset List.mem_cons_self) hu
  rw [List.infix_append_iff, List.infix_cons_iff]
  rintro (h | (h | h) | ⟨x, y, rfl, hx, hy⟩)
  · exact ha h
  · exact ha (hhere t (List.infix_refl t) h ▸ List.nil_infix)
  · exact hb h
  · obtain rfl := hhere y (List.suffix_append x y).isInfix hy
    rw [List.append_nil] at ha
    exact ha hx.isInfix

/-- A part whose two ends keep apart from another one does so too, unless it holds the other. -/
theorem Apart.of_ends {head tail : List α} (hin : ¬ t <:+: s) (hhead : head <+: s)
    (htail : tail <:+ s) (hstart : Apart head t) (hend : Apart tail t) : Apart s t where
  not_within h := hstart.not_within (hhead.isInfix.trans h)
  not_around := hin
  ends x hx ht := by
    rcases List.suffix_or_suffix_of_suffix ((List.mem_tails _ _).mp hx) htail with h | h
    · exact hend.ends x ((List.mem_tails _ _).mpr h) ht
    · exact absurd (h.isInfix.trans ht.isInfix) hend.not_within
  starts x hx ht := by
    rcases List.prefix_or_prefix_of_prefix ((List.mem_inits _ _).mp hx) hhead with h | h
    · exact hstart.starts x ((List.mem_inits _ _).mpr h) ht
    · exact absurd (h.isInfix.trans ht.isInfix) hstart.not_within

end Honeycomb.Text
