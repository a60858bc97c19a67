import Mathlib.Data.List.Pairwise
import Mathlib.Data.List.Perm.Basic
import Mathlib.Tactic.SplitIfs
import Honeycomb.Proofs.Module.Order
import Honeycomb.Proofs.Text.Letters
import Honeycomb.Text.Utf8

/-!
# The order of bytes

Names are compared by their sixteen-bit units.  Comparing their UTF-8 bytes is comparing their
characters; comparing units is nearly the same, but that a character of two units comes before the
last ones of one unit.

* `Below` — one list goes on below another one at some place after a common start, so that nothing
  behind it matters.
* `below_encodeChar`, `below_unitsOfChar` — how two characters compare in bytes and in units.
* `Crosses` — two texts part at characters of which these orders disagree; `inByteOrder_of_units_le`
  and `Crosses.opposed` say that they disagree about no other texts.
* `sort_bytes_iff` — so names are in the order of their bytes exactly if no two of them cross.
-/

set_option autoImplicit false

namespace Honeycomb

namespace Text

/-! ## Lists that part -/

/-- One list goes on below another one behind a start that they share. -/
inductive Below {β : Type} [LT β] : List β → List β → Prop
  | here {x y : β} (us vs : List β) : x < y → Below (x :: us) (y :: vs)
  | later (x : β) {us vs : List β} : Below us vs → Below (x :: us) (x :: vs)

section Parting

variable {β : Type} [LT β] {us vs : List β}

/-- The lower one comes first in a dictionary. -/
theorem Below.lex (h : Below us vs) : List.Lex (· < ·) us vs := by
  induction h with
  | here us vs hlt => exact .rel hlt
  | later x _ ih => exact .cons ih

/-- What stands behind the parting does not matter. -/
theorem Below.append (h : Below us vs) (us' vs' : List β) : Below (us ++ us') (vs ++ vs') := by
  induction h with
  | here us vs hlt => exact .here _ _ hlt
  | later x _ ih => exact .later x ih

theorem Below.append_left (h : Below us vs) (start : List β) :
    Below (start ++ us) (start ++ vs) := by
  induction start with
  | nil => exact h
  | cons x start ih => exact .later x ih

/-- Words that part where their characters do. -/
theorem Below.flatMap {α : Type} {f : α → List β} {c d : α} (h : Below (f c) (f d))
    (start cs ds : List α) :
    Below ((start ++ c :: cs).flatMap f) ((start ++ d :: ds).flatMap f) := by
  rw [List.flatMap_append, List.flatMap_append, List.flatMap_cons, List.flatMap_cons]
  exact (h.append _ _).append_left _

end Parting

/-- Of two texts one starts the other, or there is a first place where they differ. -/
theorem prefix_or_part (cs ds : List Char) :
    cs <+: ds ∨ ds <+: cs ∨
      ∃ start c d cs' ds', cs = start ++ c :: cs' ∧ ds = start ++ d :: ds' ∧ c ≠ d := by
  induction cs generalizing ds with
  | nil => exact .inl List.nil_prefix
  | cons c cs ih =>
    cases ds with
    | nil => exact .inr (.inl List.nil_prefix)
    | cons d ds =>
      by_cases hcd : c = d
      · subst hcd
        rcases ih ds with h | h | ⟨start, c', d', cs', ds', rfl, rfl, hne⟩
        · exact .inl (List.prefix_cons_inj c |>.mpr h)
        · exact .inr (.inl (List.prefix_cons_inj c |>.mpr h))
        · exact .inr (.inr ⟨c :: start, c', d', cs', ds', rfl, rfl, hne⟩)
      · exact .inr (.inr ⟨[], c, d, cs, ds, rfl, rfl, hcd⟩)

/-- What starts a list does not come behind it. -/
theorem not_lex_append (us vs : List Nat) : ¬ List.Lex (· < ·) (us ++ vs) us := by
  induction us with
  | nil =>
    intro h
    cases h
  | cons u us ih =>
    intro h
    cases h with
    | rel hlt => exact Nat.lt_irrefl u hlt
    | cons h => exact ih h

/-! ## Characters -/

theorem below_cons_iff {β : Type} [LT β] {x y : β} {us vs : List β} :
    Below (x :: us) (y :: vs) ↔ x < y ∨ x = y ∧ Below us vs := by
  constructor
  · intro h
    cases h with
    | here us vs hlt => exact .inl hlt
    | later x hbelow => exact .inr ⟨rfl, hbelow⟩
  · rintro (hlt | ⟨rfl, hbelow⟩)
    · exact .here _ _ hlt
    · exact .later _ hbelow

theorem not_below_nil {β : Type} [LT β] (us : List β) : ¬ Below us [] := nofun

/-- **Bytes compare as characters do**: fewer bytes start lower, and among as many the first digits
that differ decide. -/
theorem below_encodeChar {c d : Char} (h : c.toNat < d.toNat) :
    Below (Utf8.encodeChar c) (Utf8.encodeChar d) := by
  have hlt := toNat_lt_of_char d
  simp only [Utf8.encodeChar]
  generalize c.toNat = m at *
  generalize d.toNat = n at *
  split_ifs <;> simp only [below_cons_iff, not_below_nil, and_false, or_false] <;> omega

/-- The first is one unit, behind all surrogates, and the second is two. -/
def Crossed (c d : Char) : Prop := 0xE000 ≤ c.toNat ∧ c.toNat < 0x10000 ∧ 0x10000 ≤ d.toNat

/-- **Units compare as characters do**, unless the characters are crossed. -/
theorem below_unitsOfChar {c d : Char} (h : c.toNat < d.toNat) (hcross : ¬ Crossed c d) :
    Below (unitsOfChar c) (unitsOfChar d) := by
  have hlt := toNat_lt_of_char d
  have hvalid : c.toNat < 0xD800 ∨ 0xE000 ≤ c.toNat := c.valid.imp_right And.left
  unfold Crossed at hcross
  simp only [unitsOfChar]
  generalize c.toNat = m at *
  generalize d.toNat = n at *
  split_ifs <;>
    simp only [below_cons_iff, not_below_nil, and_false, or_false, UInt16.lt_iff_toNat_lt,
      ← UInt16.toNat_inj, UInt16.toNat_ofNat'] <;>
    omega

theorem Crossed.below {c d : Char} (h : Crossed c d) : Below (unitsOfChar d) (unitsOfChar c) := by
  have hlt := toNat_lt_of_char d
  unfold Crossed at h
  simp only [unitsOfChar]
  rw [if_neg (by omega), if_pos (by omega)]
  refine .here _ _ ?_
  rw [UInt16.lt_iff_toNat_lt, UInt16.toNat_ofNat', UInt16.toNat_ofNat']
  omega

/-! ## Texts -/

/-- The bytes of a text; a lone surrogate has those of the replacement character. -/
def bytes (t : Text) : List Nat := Utf8.encode t.toString.toList

/-- Whether the bytes of two texts stand in the order of a dictionary: those of the second one do
not come before those of the first. -/
def InByteOrder (s t : Text) : Prop := ¬ List.Lex (· < ·) t.bytes s.bytes

variable {s t : Text} {cs ds : List Char}

instance : Decidable (InByteOrder s t) := inferInstanceAs (Decidable (¬ List.Lex _ _ _))

theorem InByteOrder.refl (t : Text) : InByteOrder t t := List.lex_irrefl Nat.lt_irrefl _

theorem bytes_of_chars? (h : t.chars? = some cs) : t.bytes = cs.flatMap Utf8.encodeChar := by
  have hchars : (cs.map Letter.char).map (fun l => l.char?.getD replacement) = cs := by
    rw [List.map_map]
    exact List.map_id _
  rw [bytes, toString, letters_of_chars? h, hchars, String.toList_ofList]
  rfl

/-- Two texts part at characters that are crossed. -/
def Crosses (s t : Text) : Prop :=
  ∃ start c d cs ds, s.chars? = some (start ++ c :: cs) ∧ t.chars? = some (start ++ d :: ds) ∧
    Crossed c d

/-- A text without characters of two units is not crossed. -/
theorem not_crosses_of_basic (ht : t.chars? = some ds) (hbasic : ∀ d ∈ ds, d.toNat < 0x10000) :
    ¬ Crosses s t := by
  rintro ⟨start, c, d, cs, ds', -, ht', hcross⟩
  obtain rfl := Option.some.inj (ht.symm.trans ht')
  have hlt := hbasic d (by simp)
  have hge := hcross.2.2
  omega

/-- **Texts that cross compare in one way by bytes and in the other by units.** -/
theorem Crosses.opposed (h : Crosses s t) : ¬ InByteOrder t s ∧ t.units < s.units := by
  obtain ⟨start, c, d, cs, ds, hs, ht, hcross⟩ := h
  have hlt : c.toNat < d.toNat := Nat.lt_of_lt_of_le hcross.2.1 hcross.2.2
  rw [InByteOrder, bytes_of_chars? hs, bytes_of_chars? ht, units_of_chars? hs, units_of_chars? ht]
  exact ⟨not_not_intro ((below_encodeChar hlt).flatMap start cs ds).lex,
    (hcross.below.flatMap start ds cs).lex⟩

/-- **Texts that do not cross compare by bytes as they do by units.** -/
theorem inByteOrder_of_units_le (hs : s.chars? = some cs) (ht : t.chars? = some ds)
    (hcross : ¬ Crosses t s) (h : s.units ≤ t.units) : InByteOrder s t := by
  rcases prefix_or_part cs ds with ⟨more, rfl⟩ | ⟨more, rfl⟩ | ⟨start, c, d, cs, ds, rfl, rfl, hne⟩
  · rw [InByteOrder, bytes_of_chars? hs, bytes_of_chars? ht, List.flatMap_append]
    exact not_lex_append _ _
  · -- `t` starts `s` and does not come before it, so that they are the same
    have hle : t.units ≤ s.units := by
      rw [units_of_chars? hs, units_of_chars? ht, List.flatMap_append]
      exact (List.prefix_append _ _).le
    obtain rfl : s = t := Text.ext (List.le_antisymm h hle)
    exact .refl s
  · rcases Nat.lt_or_gt_of_ne (mt Char.toNat_inj.mp hne) with hlt | hgt
    · rw [InByteOrder, bytes_of_chars? hs, bytes_of_chars? ht]
      exact List.lex_asymm Nat.lt_asymm ((below_encodeChar hlt).flatMap start cs ds).lex
    · -- otherwise the units would be the other way round
      have hunits : t.units < s.units := by
        rw [units_of_chars? hs, units_of_chars? ht]
        exact ((below_unitsOfChar hgt fun hc =>
          hcross ⟨start, d, c, ds, cs, ht, hs, hc⟩).flatMap start ds cs).lex
      exact absurd hunits (List.not_lt.mpr h)

end Text

/-! ## Modules -/

namespace Module

open Text (Crosses InByteOrder)

variable {ms : List Module} {core : Bool}

theorem mem_group_iff {m : Module} :
    m ∈ (sort ms).filter (·.isCore == core) ↔ m ∈ ms ∧ m.isCore = core := by
  rw [List.mem_filter, beq_iff_eq]
  exact and_congr_left fun _ => List.mem_mergeSort

/-- The core modules, and the others, are in the order of the units of their names. -/
theorem pairwise_units_group :
    ((sort ms).filter (·.isCore == core)).Pairwise fun a b => a.name.units ≤ b.name.units := by
  have hascending := (pairwise_inOrder_iff.mp (pairwise_sort ms)).2
  refine (hascending.sublist List.filter_sublist).imp_of_mem ?_
  intro a b ha hb hab
  exact hab ((mem_group_iff.mp ha).2.trans (mem_group_iff.mp hb).2.symm)

/-- **When names are in the order of their bytes.**  Among the core modules, and among the others,
the names come in the order of their bytes exactly if no two of them cross: if nowhere one has a
character of one unit behind the surrogates at the place where the other one, the same up to there,
has a character of two units. -/
theorem sort_bytes_iff {ms : List Module} (hchars : ∀ m ∈ ms, ∃ cs, m.name.chars? = some cs)
    (core : Bool) :
    (((sort ms).filter (·.isCore == core)).Pairwise fun a b => InByteOrder a.name b.name) ↔
      ∀ a ∈ ms, ∀ b ∈ ms, a.isCore = core → b.isCore = core → ¬ Crosses a.name b.name := by
  constructor
  · intro hbytes a ha b hb hacore hbcore hcross
    -- whichever of them stands first, it does so by units and by bytes
    have hboth := pairwise_units_group.and hbytes
    have hsame := List.Pairwise.forall_of_forall_of_flip
      (R := fun a b : Module => (a.name.units ≤ b.name.units ∧ InByteOrder a.name b.name) ∨
        (b.name.units ≤ a.name.units ∧ InByteOrder b.name a.name))
      (fun m _ => .inl ⟨List.le_refl _, .refl _⟩) (hboth.imp .inl) (hboth.imp .inr)
      (mem_group_iff.mpr ⟨ha, hacore⟩) (mem_group_iff.mpr ⟨hb, hbcore⟩)
    obtain ⟨hless, hunitsless⟩ := hcross.opposed
    rcases hsame with ⟨hle, -⟩ | ⟨-, hle⟩
    · exact hle hunitsless
    · exact hless hle
  · intro hcross
    refine pairwise_units_group.imp_of_mem ?_
    intro a b ha hb hab
    obtain ⟨ha, hacore⟩ := mem_group_iff.mp ha
    obtain ⟨hb, hbcore⟩ := mem_group_iff.mp hb
    obtain ⟨cs, hcs⟩ := hchars a ha
    obtain ⟨ds, hds⟩ := hchars b hb
    exact Text.inByteOrder_of_units_le hcs hds (hcross b hb a ha hbcore hacore) hab

/-- Three modules with names of one unit for each character. -/
def accented : List Module :=
  [⟨"\uff41", true, false, []⟩, ⟨"z", true, true, []⟩, ⟨"\u00e9", true, false, []⟩]

theorem sort_accented_bytes :
    (∀ m ∈ accented, ∃ cs, m.name.chars? = some cs) ∧
      ((sort accented).filter (·.isCore == false)).Pairwise fun a b =>
        InByteOrder a.name b.name := by
  have hchars : ∀ m ∈ accented, ∃ cs, m.name.chars? = some cs ∧ ∀ c ∈ cs, c.toNat < 0x10000 := by
    intro m hm
    rcases List.mem_cons.mp hm with rfl | hm
    · exact ⟨['\uff41'], by decide +kernel, List.forall_mem_singleton.mpr (by decide)⟩
    rcases List.mem_cons.mp hm with rfl | hm
    · exact ⟨['z'], by decide +kernel, List.forall_mem_singleton.mpr (by decide)⟩
    obtain rfl := List.mem_singleton.mp hm
    exact ⟨['\u00e9'], by decide +kernel, List.forall_mem_singleton.mpr (by decide)⟩
  have hnames : ∀ m ∈ accented, ∃ cs, m.name.chars? = some cs := fun m hm =>
    (hchars m hm).imp fun _ => And.left
  refine ⟨hnames, (sort_bytes_iff hnames false).mpr fun a _ b hb _ _ => ?_⟩
  obtain ⟨cs, hcs, hbasic⟩ := hchars b hb
  exact Text.not_crosses_of_basic hcs hbasic

/-- Two modules with names that cross: a wide letter of one unit and a face of two. -/
def crossing : List Module :=
  [⟨"\uff41", true, false, []⟩, ⟨.ofChars [Char.ofNat 0x1F600], true, false, []⟩]

/-- The face is put first, though the bytes of the letter come before its own. -/
theorem sort_crossing_bytes :
    (∀ m ∈ crossing, ∃ cs, m.name.chars? = some cs) ∧
      sort crossing = crossing.reverse ∧
      ¬ ((sort crossing).filter (·.isCore == false)).Pairwise fun a b =>
        InByteOrder a.name b.name := by
  have hsort : sort crossing = crossing.reverse :=
    sort_of_perm crossing.reverse_perm.symm (by decide +kernel) (by decide +kernel)
  refine ⟨fun m hm => Option.isSome_iff_exists.mp ?_, hsort, ?_⟩
  · revert m
    decide +kernel
  · rw [hsort]
    decide +kernel

end Module

end Honeycomb
