import Mathlib.Data.List.Infix
import Honeycomb.Text.Basic

/-!
# What hides the end of a script element

Inside a script element, `<!--` and a `<script` behind it, with no `-->` between the two, begin a
script of its own.  The next `</script>` belongs to that one, unless `-->` comes first.

* `Script.Hides` — units in which such a script begins.
* `Script.Wall` — the units that stand in no mark, so that no mark goes on behind them.
* `Script.Agree` — two lists of units that hide alike; `Script.Alike`, when whatever stands in front
  of the one can stand in front of the other.
-/

set_option autoImplicit false

namespace Honeycomb

open Text (unit unitsOf)

namespace Script

/-! ## Marks -/

/-- The marks between which a script does not end. -/
inductive Mark
  /-- A comment begins. -/
  | opens
  /-- A comment ends. -/
  | closes
  /-- Inside a comment, another script begins. -/
  | nests

/-- An ASCII letter as a lower case one. -/
def lower (u : UInt16) : UInt16 := if 65 ≤ u ∧ u ≤ 90 then u + 32 else u

/-- How a mark is spelled. -/
def Mark.Spells : Mark → List UInt16 → Prop
  | .opens, us => us = unitsOf "<!--"
  | .closes, us => us = unitsOf "-->"
  | .nests, us => ∃ name stop, us = unit '<' :: name ++ [stop] ∧
      name.map lower = unitsOf "script" ∧ stop ∈ [unit ' ', unit '/', unit '>']

/-- A mark stands at the head of the units. -/
def Heads (mark : Mark) (us : List UInt16) : Prop := ∃ spelled, mark.Spells spelled ∧ spelled <+: us

/-- Another script begins in the units, and no comment ends before it. -/
def Reaches (us : List UInt16) : Prop :=
  ∃ j, Heads .nests (us.drop j) ∧ ∀ k < j, ¬ Heads .closes (us.drop k)

/-- **The units can hide what ends a script**: a comment begins in them, another script begins
behind that, and no comment ends in between. -/
def Hides (us : List UInt16) : Prop :=
  ∃ i j, i < j ∧ Heads .opens (us.drop i) ∧ Heads .nests (us.drop j) ∧
    ∀ k, i < k → k < j → ¬ Heads .closes (us.drop k)

variable {us vs rest rest' : List UInt16} {u : UInt16}

theorem reaches_cons :
    Reaches (u :: us) ↔ Heads .nests (u :: us) ∨ (¬ Heads .closes (u :: us) ∧ Reaches us) := by
  constructor
  · rintro ⟨j, hnests, hopen⟩
    cases j with
    | zero => exact .inl hnests
    | succ j =>
      refine .inr ⟨hopen 0 (Nat.succ_pos j), j, hnests, fun k hk => ?_⟩
      exact hopen (k + 1) (Nat.succ_lt_succ hk)
  · rintro (hnests | ⟨hhead, j, hnests, hopen⟩)
    · exact ⟨0, hnests, nofun⟩
    · refine ⟨j + 1, hnests, fun k hk => ?_⟩
      cases k with
      | zero => exact hhead
      | succ k => exact hopen k (Nat.lt_of_succ_lt_succ hk)

theorem hides_cons : Hides (u :: us) ↔ (Heads .opens (u :: us) ∧ Reaches us) ∨ Hides us := by
  constructor
  · rintro ⟨i, j, hij, hopens, hnests, hopen⟩
    obtain ⟨j, rfl⟩ : ∃ j', j = j' + 1 := ⟨j - 1, by omega⟩
    cases i with
    | zero =>
      refine .inl ⟨hopens, j, hnests, fun k hk => ?_⟩
      exact hopen (k + 1) (Nat.succ_pos k) (Nat.succ_lt_succ hk)
    | succ i =>
      refine .inr ⟨i, j, Nat.lt_of_succ_lt_succ hij, hopens, hnests, fun k hik hkj => ?_⟩
      exact hopen (k + 1) (Nat.succ_lt_succ hik) (Nat.succ_lt_succ hkj)
  · rintro (⟨hopens, j, hnests, hopen⟩ | ⟨i, j, hij, hopens, hnests, hopen⟩)
    · refine ⟨0, j + 1, Nat.succ_pos j, hopens, hnests, fun k hk hkj => ?_⟩
      obtain ⟨k, rfl⟩ : ∃ k', k = k' + 1 := ⟨k - 1, by omega⟩
      exact hopen k (Nat.lt_of_succ_lt_succ hkj)
    · refine ⟨i + 1, j + 1, Nat.succ_lt_succ hij, hopens, hnests, fun k hik hkj => ?_⟩
      obtain ⟨k, rfl⟩ : ∃ k', k = k' + 1 := ⟨k - 1, by omega⟩
      exact hopen k (Nat.lt_of_succ_lt_succ hik) (Nat.lt_of_succ_lt_succ hkj)

theorem heads_congr {mark : Mark}
    (h : ∀ spelled, mark.Spells spelled → (spelled <+: us ↔ spelled <+: vs)) :
    Heads mark us ↔ Heads mark vs :=
  exists_congr fun spelled => and_congr_right (h spelled)

/-- What holds of all units of a list is found by going through it. -/
theorem forall_mem_of_all {p : UInt16 → Prop} [DecidablePred p]
    (h : us.all (fun u => decide (p u)) = true) : ∀ u ∈ us, p u := by
  simpa using h

/-! ## Walls -/

/-- A unit that stands in no mark. -/
def Wall (u : UInt16) : Prop := lower u ∉ unitsOf "<!-->script /"

instance (u : UInt16) : Decidable (Wall u) := inferInstanceAs (Decidable (¬ _))

theorem not_wall_of_spells {mark : Mark} {spelled : List UInt16} (h : mark.Spells spelled)
    (hu : u ∈ spelled) : ¬ Wall u := by
  cases mark with
  | opens =>
    have hmark : ∀ v ∈ unitsOf "<!--", ¬ Wall v := forall_mem_of_all (by decide)
    obtain rfl := h
    exact hmark u hu
  | closes =>
    have hmark : ∀ v ∈ unitsOf "-->", ¬ Wall v := forall_mem_of_all (by decide)
    obtain rfl := h
    exact hmark u hu
  | nests =>
    obtain ⟨name, stop, rfl, hname, hstop⟩ := h
    rw [List.cons_append, List.mem_cons, List.mem_append, List.mem_singleton] at hu
    rcases hu with rfl | hu | rfl
    · decide
    · have hmem : lower u ∈ unitsOf "script" := hname ▸ List.mem_map_of_mem hu
      have hsub : ∀ v ∈ unitsOf "script", v ∈ unitsOf "<!-->script /" :=
        forall_mem_of_all (by decide)
      exact not_not_intro (hsub _ hmem)
    · have hstops : ∀ v ∈ [unit ' ', unit '/', unit '>'], ¬ Wall v :=
        forall_mem_of_all (by decide)
      exact hstops u hstop

/-- A mark begins with a bracket or a dash. -/
theorem not_heads_of_ne (hless : u ≠ unit '<') (hdash : u ≠ unit '-') (mark : Mark) :
    ¬ Heads mark (u :: us) := by
  rintro ⟨spelled, hspells, hle⟩
  cases mark with
  | opens =>
    obtain rfl := hspells
    exact hless (List.cons_prefix_cons.mp hle).1.symm
  | closes =>
    obtain rfl := hspells
    exact hdash (List.cons_prefix_cons.mp hle).1.symm
  | nests =>
    obtain ⟨name, stop, rfl, -⟩ := hspells
    exact hless (List.cons_prefix_cons.mp hle).1.symm

theorem Wall.ne_less (h : Wall u) : u ≠ unit '<' := by
  rintro rfl
  exact absurd h (by decide)

theorem Wall.ne_dash (h : Wall u) : u ≠ unit '-' := by
  rintro rfl
  exact absurd h (by decide)

/-- Units behind which no mark goes on that began before them: there are none, or a wall comes
first. -/
def Sealed (us : List UInt16) : Prop := ∀ u more, us = u :: more → Wall u

theorem sealed_nil : Sealed [] := nofun

theorem sealed_cons (hu : Wall u) (us : List UInt16) : Sealed (u :: us) := by
  rintro _ _ ⟨⟩
  exact hu

theorem prefix_append_sealed {spelled : List UInt16} (hspelled : ∀ u ∈ spelled, ¬ Wall u)
    (hrest : Sealed rest) : spelled <+: us ++ rest ↔ spelled <+: us := by
  induction us generalizing spelled with
  | nil =>
    rw [List.nil_append, List.prefix_nil]
    constructor
    · rintro ⟨more, rfl⟩
      cases spelled with
      | nil => rfl
      | cons u spelled => exact absurd (hrest u _ rfl) (hspelled u List.mem_cons_self)
    · rintro rfl
      exact List.nil_prefix
  | cons u us ih =>
    cases spelled with
    | nil => simp
    | cons v spelled =>
      rw [List.cons_append, List.cons_prefix_cons, List.cons_prefix_cons,
        ih (List.forall_mem_cons.mp hspelled).2]

/-! ## Units with the same marks -/

/-- Two lists of units hide the end of a script, and reach another one, alike. -/
structure Agree (us vs : List UInt16) : Prop where
  hides : Hides us ↔ Hides vs
  reaches : Reaches us ↔ Reaches vs

/-- And the same may go on in both of them. -/
structure Alike (us vs : List UInt16) : Prop extends Agree us vs where
  prefixes : ∀ m : List UInt16, (∀ u ∈ m, ¬ Wall u) → (m <+: us ↔ m <+: vs)

theorem Agree.refl (us : List UInt16) : Agree us us := ⟨Iff.rfl, Iff.rfl⟩

theorem Agree.symm (h : Agree us vs) : Agree vs us := ⟨h.hides.symm, h.reaches.symm⟩

theorem Agree.cons {v : UInt16} (h : Agree us vs)
    (hheads : ∀ mark, Heads mark (u :: us) ↔ Heads mark (v :: vs)) :
    Agree (u :: us) (v :: vs) := by
  constructor
  · rw [hides_cons, hides_cons, h.hides, h.reaches, hheads]
  · rw [reaches_cons, reaches_cons, h.reaches, hheads, hheads]

/-- A unit at which no mark begins can be left out in front. -/
theorem Agree.cons_left (h : Agree us vs) (hu : ∀ mark, ¬ Heads mark (u :: us)) :
    Agree (u :: us) vs := by
  constructor
  · rw [hides_cons, ← h.hides]
    simp [hu]
  · rw [reaches_cons, ← h.reaches]
    simp [hu]

theorem Agree.wall_left (hu : Wall u) (h : Agree us vs) : Agree (u :: us) vs :=
  h.cons_left (not_heads_of_ne hu.ne_less hu.ne_dash)

theorem Agree.wall_right (hu : Wall u) (h : Agree us vs) : Agree us (u :: vs) :=
  (h.symm.wall_left hu).symm

theorem Agree.append_left {ws : List UInt16} (hws : ∀ u ∈ ws, u ≠ unit '<' ∧ u ≠ unit '-')
    (h : Agree us vs) : Agree (ws ++ us) vs := by
  induction ws with
  | nil => exact h
  | cons w ws ih =>
    rw [List.forall_mem_cons] at hws
    exact (ih hws.2).cons_left (not_heads_of_ne hws.1.1 hws.1.2)

/-- Units without brackets hold no mark, if nothing goes on behind them. -/
theorem Agree.append_sealed {ws : List UInt16} (hws : ∀ u ∈ ws, u ≠ unit '<' ∧ u ≠ unit '>')
    (hus : Sealed us) (h : Agree us vs) : Agree (ws ++ us) vs := by
  induction ws with
  | nil => exact h
  | cons w ws ih =>
    refine (ih (List.forall_mem_cons.mp hws).2).cons_left ?_
    rintro mark ⟨spelled, hspells, hle⟩
    rw [← List.cons_append, prefix_append_sealed (fun u => not_wall_of_spells hspells) hus] at hle
    have hless := fun hmem => (hws _ (hle.subset hmem)).1 rfl
    have hgreater := fun hmem => (hws _ (hle.subset hmem)).2 rfl
    cases mark with
    | opens =>
      obtain rfl := hspells
      exact hless (by decide)
    | closes =>
      obtain rfl := hspells
      exact hgreater (by decide)
    | nests =>
      obtain ⟨name, stop, rfl, -⟩ := hspells
      exact hless List.mem_cons_self

namespace Alike

theorem cons (h : Alike us vs) (u : UInt16) : Alike (u :: us) (u :: vs) := by
  have hprefixes : ∀ m : List UInt16, (∀ u ∈ m, ¬ Wall u) → (m <+: u :: us ↔ m <+: u :: vs) := by
    intro m hm
    cases m with
    | nil => simp
    | cons x m =>
      rw [List.cons_prefix_cons, List.cons_prefix_cons, h.prefixes m (List.forall_mem_cons.mp hm).2]
  refine ⟨h.toAgree.cons fun mark => heads_congr fun spelled hspells => ?_, hprefixes⟩
  exact hprefixes spelled fun u => not_wall_of_spells hspells

theorem append (h : Alike us vs) (ws : List UInt16) : Alike (ws ++ us) (ws ++ vs) := by
  induction ws with
  | nil => exact h
  | cons w ws ih => exact ih.cons w

theorem of_sealed (h : Agree us vs) (hus : Sealed us) (hvs : Sealed vs) : Alike us vs := by
  have hnil : ∀ {ws : List UInt16}, Sealed ws → ∀ m : List UInt16, (∀ u ∈ m, ¬ Wall u) →
      (m <+: ws ↔ m = []) := by
    intro ws hws m hm
    rw [← List.nil_append ws, prefix_append_sealed hm hws, List.prefix_nil]
  refine ⟨h, fun m hm => ?_⟩
  rw [hnil hus m hm, hnil hvs m hm]

end Alike

end Script

end Honeycomb
