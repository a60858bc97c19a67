import Honeycomb.Json.Parser
import Honeycomb.Proofs.Fields

/-!
# What holds of every value that is read

* `Json.WellFormed`, `Json.Ordered` — in every object of a value each key stands once, or even where
  setting the members puts it.
* `Hereditary.of_parse?` — what is read from a text has every property that goes from the parts of a
  value to the whole.
* `wellFormed_of_parse?`, `ordered_of_parse?` — so it is well-formed and ordered.
-/

set_option autoImplicit false

namespace Honeycomb

namespace Json

/-- In every object each key stands once. -/
inductive WellFormed : Json → Prop
  | null : WellFormed .null
  | bool (b : Bool) : WellFormed (.bool b)
  | number (x : Float) : WellFormed (.number x)
  | text (t : Text) : WellFormed (.text t)
  | array {items : List Json} (all : ∀ j ∈ items, WellFormed j) : WellFormed (.array items)
  | object {members : Fields Json} (distinct : members.Distinct)
      (all : ∀ e ∈ members, WellFormed e.2) : WellFormed (.object members)

theorem WellFormed.member? {j v : Json} {key : Text} (h : j.WellFormed)
    (hv : j.member? key = some v) : v.WellFormed := by
  cases h with
  | object distinct all => exact all _ ((Fields.get?_eq_some_iff distinct).mp hv)
  | _ => cases hv

/-- In every object the members are in the order that setting them gives. -/
inductive Ordered : Json → Prop
  | null : Ordered .null
  | bool (b : Bool) : Ordered (.bool b)
  | number (x : Float) : Ordered (.number x)
  | text (t : Text) : Ordered (.text t)
  | array {items : List Json} (all : ∀ j ∈ items, Ordered j) : Ordered (.array items)
  | object {members : Fields Json} (order : members.Canonical)
      (all : ∀ e ∈ members, Ordered e.2) : Ordered (.object members)

theorem Ordered.member? {j v : Json} {key : Text} (h : j.Ordered)
    (hv : j.member? key = some v) : v.Ordered := by
  cases h with
  | object order all => exact all _ ((Fields.get?_eq_some_iff order.distinct).mp hv)
  | _ => cases hv

/-! ## Reading -/

/-- A property that a value has once its parts have it, where an object is what setting its members
one after the other gives. -/
structure Hereditary (P : Json → Prop) : Prop where
  null : P .null
  bool (b : Bool) : P (.bool b)
  number (x : Float) : P (.number x)
  text (t : Text) : P (.text t)
  array {items : List Json} : (∀ j ∈ items, P j) → P (.array items)
  object {pairs : List (Text × Json)} : (∀ e ∈ pairs, P e.2) → P (.object (Fields.ofPairs pairs))

namespace Hereditary

variable {P : Json → Prop}

theorem readWord {word : String} {value v : Json} {us rest : List UInt16}
    (hvalue : P value) (h : readWord word value us = some (v, rest)) : P v := by
  obtain ⟨more, -, h⟩ := Option.map_eq_some_iff.mp h
  cases h
  exact hvalue

theorem readScalar (hP : Hereditary P) {us rest : List UInt16} {v : Json}
    (h : readScalar us = some (v, rest)) : P v := by
  unfold Json.readScalar at h
  simp only [Option.orElse_eq_orElse, Option.orElse_eq_or, Option.or_eq_some_iff] at h
  rcases h with h | ⟨-, h | ⟨-, h | ⟨-, h⟩⟩⟩
  · exact readWord hP.null h
  · exact readWord (hP.bool _) h
  · exact readWord (hP.bool _) h
  · obtain ⟨x, -, h⟩ := Option.map_eq_some_iff.mp h
    cases h
    exact hP.number _

/-- What is read with some fuel has the property, and so has a container whose parts read so far
have it. -/
structure Holds (P : Json → Prop) (fuel : Nat) : Prop where
  value : ∀ us v rest, readValue fuel us = some (v, rest) → P v
  items : ∀ done us v rest, (∀ j ∈ done, P j) → readItems fuel done us = some (v, rest) → P v
  members : ∀ done us v rest, (∀ e ∈ done, P e.2) →
    readMembers fuel done us = some (v, rest) → P v

theorem readValue_succ (hP : Hereditary P) {fuel : Nat} (ih : Holds P fuel)
    {us rest : List UInt16} {v : Json} (h : readValue (fuel + 1) us = some (v, rest)) : P v := by
  unfold readValue at h
  split at h
  · obtain ⟨read, -, h⟩ := Option.map_eq_some_iff.mp h
    cases h
    exact hP.text _
  · split at h
    · cases h
      exact hP.array (by simp)
    · exact ih.items _ _ v rest (by simp) h
  · split at h
    · cases h
      have hempty : P (.object (Fields.ofPairs [])) := hP.object (by simp)
      exact hempty
    · exact ih.members _ _ v rest (by simp) h
  · exact hP.readScalar h

theorem readItems_succ (hP : Hereditary P) {fuel : Nat} (ih : Holds P fuel) {done : List Json}
    {us rest : List UInt16} {v : Json} (hdone : ∀ j ∈ done, P j)
    (h : readItems (fuel + 1) done us = some (v, rest)) : P v := by
  unfold readItems at h
  split at h
  · cases h
  rename_i item more hitem
  have hall : ∀ j ∈ item :: done, P j :=
    List.forall_mem_cons.mpr ⟨ih.value _ _ _ hitem, hdone⟩
  split at h
  · exact ih.items _ _ v rest hall h
  · cases h
    exact hP.array fun j hj => hall j (List.mem_reverse.mp hj)
  · cases h

theorem readMembers_succ (hP : Hereditary P) {fuel : Nat} (ih : Holds P fuel)
    {done : List (Text × Json)} {us rest : List UInt16} {v : Json} (hdone : ∀ e ∈ done, P e.2)
    (h : readMembers (fuel + 1) done us = some (v, rest)) : P v := by
  unfold readMembers at h
  split at h
  · cases h
  rename_i key more hkey
  split at h
  · cases h
  rename_i member more' hmember
  have hall : ∀ e ∈ (key, member) :: done, P e.2 :=
    List.forall_mem_cons.mpr ⟨ih.value _ _ _ hmember, hdone⟩
  split at h
  · exact ih.members _ _ v rest hall h
  · cases h
    exact hP.object fun e he => hall e (List.mem_reverse.mp he)
  · cases h

/-- What is read with any fuel has the property. -/
theorem read (hP : Hereditary P) (fuel : Nat) : Holds P fuel := by
  induction fuel with
  | zero => exact ⟨nofun, nofun, nofun⟩
  | succ fuel ih =>
    constructor
    · intro us v rest h
      exact hP.readValue_succ ih h
    · intro done us v rest hdone h
      exact hP.readItems_succ ih hdone h
    · intro done us v rest hdone h
      exact hP.readMembers_succ ih hdone h

/-- **What is read from a text has every property that goes from parts to the whole.** -/
theorem of_parse? (hP : Hereditary P) {t : Text} {v : Json} (h : parse? t = some v) : P v := by
  unfold parse? parseUnits? at h
  split at h
  · rename_i read rest hread
    split at h
    · cases h
      exact (hP.read _).value _ _ _ hread
    · cases h
  · cases h

end Hereditary

/-- **What is read from a text is well-formed.** -/
theorem wellFormed_of_parse? {t : Text} {v : Json} (h : parse? t = some v) : v.WellFormed := by
  have hobject : ∀ {pairs : List (Text × Json)}, (∀ e ∈ pairs, e.2.WellFormed) →
      (Json.object (Fields.ofPairs pairs)).WellFormed := fun hall =>
    .object (Fields.distinct_ofPairs _) fun e he => hall e (Fields.mem_ofPairs he)
  exact Hereditary.of_parse? ⟨.null, .bool, .number, .text, .array, hobject⟩ h

/-- **What is read from a text is ordered.** -/
theorem ordered_of_parse? {t : Text} {v : Json} (h : parse? t = some v) : v.Ordered := by
  have hobject : ∀ {pairs : List (Text × Json)}, (∀ e ∈ pairs, e.2.Ordered) →
      (Json.object (Fields.ofPairs pairs)).Ordered := fun hall =>
    .object (Fields.canonical_ofPairs _) fun e he => hall e (Fields.mem_ofPairs he)
  exact Hereditary.of_parse? ⟨.null, .bool, .number, .text, .array, hobject⟩ h

end Json

end Honeycomb
