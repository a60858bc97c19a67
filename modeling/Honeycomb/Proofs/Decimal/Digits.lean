import Mathlib.Data.List.TakeWhile
import Mathlib.Tactic.Linarith
import Mathlib.Tactic.Ring
import Honeycomb.Decimal.Digits

/-!
# Numerals

* `toNat_ofNat` — the numeral of a number spells that number.
* `toNat_append` — what two numerals spell when one follows the other.
* `ofNat_bounds` — a numeral is as long as its number is great.
* `take_append` — digits are taken up to the first unit that is none.
-/

set_option autoImplicit false

namespace Honeycomb.Digits

theorem value_digit {d : Nat} (h : d < 10) : value (digit d) = d := by
  unfold value digit
  rw [UInt16.toNat_ofNat']
  omega

theorem isDigit_digit {d : Nat} (h : d < 10) : isDigit (digit d) = true := by
  have hd : (digit d).toNat = 48 + d := by
    unfold digit
    rw [UInt16.toNat_ofNat']
    omega
  simp only [isDigit, Bool.and_eq_true, decide_eq_true_eq, UInt16.le_iff_toNat_le, hd]
  constructor
  · show 48 ≤ 48 + d
    omega
  · show 48 + d ≤ 57
    omega

theorem value_lt {u : UInt16} (h : isDigit u = true) : value u < 10 := by
  simp only [isDigit, Bool.and_eq_true, decide_eq_true_eq, UInt16.le_iff_toNat_le] at h
  have h57 : u.toNat ≤ 57 := h.2
  unfold value
  omega

theorem ofNat_ne_nil (n : Nat) : ofNat n ≠ [] := by
  rw [ofNat]
  split <;> simp

theorem isDigit_of_mem_ofNat (n : Nat) : ∀ u ∈ ofNat n, isDigit u = true := by
  rw [ofNat]
  split
  · intro u hu
    rw [List.mem_singleton] at hu
    rw [hu]
    exact isDigit_digit (by assumption)
  · intro u hu
    rcases List.mem_append.mp hu with hu | hu
    · exact isDigit_of_mem_ofNat (n / 10) u hu
    · rw [List.mem_singleton] at hu
      rw [hu]
      exact isDigit_digit (by omega)
termination_by n
decreasing_by omega

theorem foldl_eq (us : List UInt16) (n : Nat) :
    us.foldl (fun n u => 10 * n + value u) n = n * 10 ^ us.length + toNat us := by
  induction us generalizing n with
  | nil => simp [toNat]
  | cons u us ih =>
    have hcons : toNat (u :: us) = value u * 10 ^ us.length + toNat us := by
      simp only [toNat, List.foldl_cons, Nat.mul_zero, Nat.zero_add]
      rw [ih]
      rfl
    rw [List.foldl_cons, ih, hcons, List.length_cons, Nat.pow_succ]
    ring

theorem toNat_append (us vs : List UInt16) :
    toNat (us ++ vs) = toNat us * 10 ^ vs.length + toNat vs := by
  show (us ++ vs).foldl _ 0 = _
  rw [List.foldl_append, foldl_eq]
  rfl

theorem toNat_ofNat (n : Nat) : toNat (ofNat n) = n := by
  rw [ofNat]
  split
  · rename_i h
    simp [toNat, value_digit h]
  · rw [toNat_append, toNat_ofNat (n / 10)]
    simp [toNat, value_digit (Nat.mod_lt n (by omega))]
    omega
termination_by n
decreasing_by omega

theorem toNat_lt {us : List UInt16} (h : ∀ u ∈ us, isDigit u = true) :
    toNat us < 10 ^ us.length := by
  induction us with
  | nil => simp [toNat]
  | cons u us ih =>
    have hu := value_lt (h u List.mem_cons_self)
    have hus := ih fun v hv => h v (List.mem_cons_of_mem u hv)
    have hsplit := toNat_append [u] us
    rw [List.singleton_append, show toNat [u] = value u by simp [toNat]] at hsplit
    rw [hsplit, List.length_cons, Nat.pow_succ]
    have := Nat.mul_le_mul_right (10 ^ us.length) (Nat.le_of_lt_succ hu)
    omega

theorem ofNat_bounds {n : Nat} (h : 0 < n) :
    10 ^ ((ofNat n).length - 1) ≤ n ∧ n < 10 ^ (ofNat n).length := by
  refine ⟨?_, ?_⟩
  · rw [ofNat]
    split
    · exact h
    · have ih := (ofNat_bounds (n := n / 10) (by omega)).1
      obtain ⟨l, hl⟩ : ∃ l, (ofNat (n / 10)).length = l + 1 :=
        Nat.exists_eq_add_one_of_ne_zero (by simp [ofNat_ne_nil])
      rw [hl, Nat.add_sub_cancel] at ih
      rw [List.length_append, hl, List.length_singleton, Nat.add_sub_cancel, Nat.pow_succ]
      omega
  · have := toNat_lt (isDigit_of_mem_ofNat n)
    rwa [toNat_ofNat] at this
termination_by n
decreasing_by omega

/-! ## Zeros -/

theorem toNat_zeros (n : Nat) : toNat (List.replicate n (Text.unit '0')) = 0 := by
  induction n with
  | zero => rfl
  | succ n ih =>
    rw [List.replicate_succ, ← List.singleton_append, toNat_append, ih,
      show toNat [Text.unit '0'] = 0 by decide, Nat.zero_mul]

theorem isDigit_of_mem_zeros {n : Nat} {u : UInt16}
    (h : u ∈ List.replicate n (Text.unit '0')) : isDigit u = true := by
  rw [(List.mem_replicate.mp h).2]
  decide

/-! ## Taking digits -/

theorem take_append {us rest : List UInt16} (hus : ∀ u ∈ us, isDigit u = true)
    (hrest : ∀ u more, rest = u :: more → isDigit u = false) : take (us ++ rest) = (us, rest) := by
  have hstop : rest.takeWhile isDigit = [] ∧ rest.dropWhile isDigit = rest := by
    cases rest with
    | nil => exact ⟨rfl, rfl⟩
    | cons u more => simp [hrest u more rfl]
  rw [take, List.takeWhile_append_of_pos hus, List.dropWhile_append_of_pos hus, hstop.1, hstop.2,
    List.append_nil]

theorem take_spec (us : List UInt16) :
    us = (take us).1 ++ (take us).2 ∧ (∀ u ∈ (take us).1, isDigit u = true) ∧
      ∀ u more, (take us).2 = u :: more → isDigit u = false := by
  refine ⟨(List.takeWhile_append_dropWhile).symm, ?_, ?_⟩
  · intro u hu
    exact List.mem_takeWhile_imp hu
  · intro u more h
    have := List.head?_dropWhile_not isDigit us
    change us.dropWhile isDigit = u :: more at h
    rw [h] at this
    simpa using this

end Honeycomb.Digits
