import Honeycomb.Proofs.Fields
import Honeycomb.Proofs.Json.Number
import Honeycomb.Proofs.Json.Quoted

/-!
# A written value is read back

* `Faithful` — the values that can be told from their text: every number in them is finite and not
  the negative zero, and every object has its members in the order that setting them gives.
* `reads_of_faithful` — the text of such a value is read as that value, and reading stops behind it.
* `parse?_render` — so writing it and reading it gives it back.
-/

set_option autoImplicit false

namespace Honeycomb.Json

open Text (unit unitsOf dropStart?)

/-- The values that can be told from their text. -/
inductive Faithful : Json → Prop
  | null : Faithful .null
  | bool (b : Bool) : Faithful (.bool b)
  | number {x : Float} (finite : x.isFinite = true) (signed : x ≠ -0) : Faithful (.number x)
  | text (t : Text) : Faithful (.text t)
  | array {items : List Json} (all : ∀ v ∈ items, Faithful v) : Faithful (.array items)
  | object {members : List (Text × Json)} (order : Fields.Canonical members)
      (all : ∀ m ∈ members, Faithful m.2) : Faithful (.object members)

/-! ## Marks -/

theorem mark?_cons {u : UInt16} (hu : isBlank u = false) (c : Char) (rest : List UInt16) :
    mark? c (u :: rest) = if unit c = u then some rest else none := by
  rw [mark?, skipBlanks, List.dropWhile_cons_of_neg (by simp [hu]), dropStart?]
  rfl

theorem skipBlanks_cons {u : UInt16} (hu : isBlank u = false) (rest : List UInt16) :
    skipBlanks (u :: rest) = u :: rest :=
  List.dropWhile_cons_of_neg (by simp [hu])

/-- Reads a container from after its opening mark: it is empty, or something stands in it. -/
def readContainer (close : Char) (next : List UInt16 → Option (Json × List UInt16)) (empty : Json)
    (us : List UInt16) : Option (Json × List UInt16) :=
  match mark? close us with
  | some rest => some (empty, rest)
  | none => next us

theorem readContainer_close {close : Char} (hblank : isBlank (unit close) = false)
    {next : List UInt16 → Option (Json × List UInt16)} {empty : Json} (rest : List UInt16) :
    readContainer close next empty (unit close :: rest) = some (empty, rest) := by
  unfold readContainer
  rw [mark?_cons hblank, if_pos rfl]

theorem readContainer_cons {close : Char} {u : UInt16} (hblank : isBlank u = false)
    (hu : u ≠ unit close) {next : List UInt16 → Option (Json × List UInt16)} {empty : Json}
    (rest : List UInt16) : readContainer close next empty (u :: rest) = next (u :: rest) := by
  unfold readContainer
  rw [mark?_cons hblank, if_neg (Ne.symm hu)]

/-- What a value is depends on the unit that it starts with. -/
theorem readValue_cons {u : UInt16} (hu : isBlank u = false) (fuel : Nat) (rest : List UInt16) :
    readValue (fuel + 1) (u :: rest) =
      if u = unit '"' then (readText [] rest).map fun (t, rest) => (.text t, rest)
      else if u = unit '[' then readContainer ']' (readItems fuel []) (.array []) rest
      else if u = unit '\x7b' then readContainer '\x7d' (readMembers fuel []) (.object []) rest
      else readScalar (u :: rest) := by
  rw [readValue, mark?_cons hu, mark?_cons hu, mark?_cons hu, skipBlanks_cons hu]
  by_cases hquote : u = unit '"'
  · subst hquote
    rfl
  rw [if_neg (Ne.symm hquote), if_neg hquote]
  by_cases hbracket : u = unit '['
  · subst hbracket
    rfl
  rw [if_neg (Ne.symm hbracket), if_neg hbracket]
  by_cases hbrace : u = unit '\x7b'
  · subst hbrace
    rfl
  rw [if_neg (Ne.symm hbrace), if_neg hbrace]

theorem quoted_append (t : Text) (rest : List UInt16) :
    quoted t ++ rest = unit '"' :: (t.letters.flatMap escapeLetter ++ unit '"' :: rest) := by
  rw [quoted, List.append_assoc, List.cons_append, List.singleton_append]

theorem readKey_quoted (key : Text) (rest : List UInt16) :
    readKey (quoted key ++ unit ':' :: rest) = some (key, rest) := by
  rw [readKey, quoted_append, mark?_cons (by decide), if_pos rfl]
  dsimp only [Option.bind_eq_bind, Option.bind_some]
  rw [readText_quoted]
  dsimp only [Option.bind_some]
  rw [mark?_cons (by decide), if_pos rfl]
  rfl

/-! ## What stands behind a value in a container -/

/-- Goes on behind a comma, or gives the whole container behind its closing mark. -/
def readBehind (close : Char) (next : List UInt16 → Option (Json × List UInt16)) (whole : Json)
    (us : List UInt16) : Option (Json × List UInt16) :=
  match mark? ',' us, mark? close us with
  | some rest, _ => next rest
  | _, some rest => some (whole, rest)
  | _, _ => none

section Behind

variable {close : Char} {next : List UInt16 → Option (Json × List UInt16)} {whole : Json}

theorem readBehind_comma (rest : List UInt16) :
    readBehind close next whole (unit ',' :: rest) = next rest := by
  unfold readBehind
  rw [mark?_cons (by decide), if_pos rfl]

theorem readBehind_close (hblank : isBlank (unit close) = false) (hcomma : unit ',' ≠ unit close)
    (rest : List UInt16) :
    readBehind close next whole (unit close :: rest) = some (whole, rest) := by
  unfold readBehind
  rw [mark?_cons hblank, mark?_cons hblank, if_neg hcomma, if_pos rfl]

theorem readItems_succ (fuel : Nat) (done : List Json) (us : List UInt16) :
    readItems (fuel + 1) done us = (readValue fuel us).bind fun r =>
      readBehind ']' (readItems fuel (r.1 :: done)) (.array (r.1 :: done).reverse) r.2 := by
  rw [readItems]
  cases readValue fuel us <;> rfl

theorem readMembers_succ (fuel : Nat) (done : List (Text × Json)) (us : List UInt16) :
    readMembers (fuel + 1) done us = (readKey us).bind fun k => (readValue fuel k.2).bind fun r =>
      readBehind '\x7d' (readMembers fuel ((k.1, r.1) :: done))
        (.object (Fields.ofPairs ((k.1, r.1) :: done).reverse)) r.2 := by
  rw [readMembers]
  cases readKey us with
  | none => rfl
  | some k =>
    dsimp only [Option.bind_some]
    cases readValue fuel k.2 <;> rfl

end Behind

/-! ## Scalars -/

/-- A unit that a value may start with: no blank, and nothing that closes a container. -/
def Opens (u : UInt16) : Prop := isBlank u = false ∧ u ≠ unit ']' ∧ u ≠ unit '\x7d'

instance (u : UInt16) : Decidable (Opens u) := inferInstanceAs (Decidable (_ ∧ _))

/-- A unit that a number may start with. -/
def OpensNumber (u : UInt16) : Prop := Digits.isDigit u = true ∨ u = unit '-'

theorem OpensNumber.ne {u v : UInt16} (hu : OpensNumber u) (hd : Digits.isDigit v = false)
    (hm : v ≠ unit '-') : u ≠ v := by
  rintro rfl
  rcases hu with h | h
  · rw [hd] at h
    cases h
  · exact hm h

theorem OpensNumber.opens {u : UInt16} (hu : OpensNumber u) : Opens u := by
  refine ⟨?_, hu.ne (by decide) (by decide), hu.ne (by decide) (by decide)⟩
  simp only [isBlank, Bool.or_eq_false_iff, beq_eq_false_iff_ne]
  exact ⟨⟨⟨hu.ne (by decide) (by decide), hu.ne (by decide) (by decide)⟩,
    hu.ne (by decide) (by decide)⟩, hu.ne (by decide) (by decide)⟩

theorem numberUnits_eq_cons {x : Float} (hfinite : x.isFinite = true) :
    ∃ u us, numberUnits x = u :: us ∧ OpensNumber u := by
  rcases numberUnits_cases hfinite with
    ⟨_, -, hunits⟩ | ⟨m, e, h, hu, hunits⟩ | ⟨m, e, h, -, hunits⟩
  · exact ⟨_, _, hunits, .inl (by decide)⟩
  · obtain ⟨u, us, hcons, hdigit⟩ := shortest_units_eq_cons (Packing.canonical_of_unpack hu)
    exact ⟨u, us, hunits.trans hcons, .inl hdigit⟩
  · exact ⟨_, _, hunits, .inr rfl⟩

theorem readWord_of_ne {word : String} {c : Char} {cs : List Char} (hword : word.toList = c :: cs)
    (hc : Text.unitsOfChar c = [unit c]) (value : Json) {u : UInt16} (hu : u ≠ unit c)
    (rest : List UInt16) : readWord word value (u :: rest) = none := by
  have hunits : unitsOf word = unit c :: cs.flatMap Text.unitsOfChar := by
    rw [unitsOf, Text.ofString, hword, Text.ofChars, List.flatMap_cons, hc]
    rfl
  rw [readWord, hunits, dropStart?, if_neg (Ne.symm hu)]
  rfl

theorem readScalar_number {x : Float} (hfinite : x.isFinite = true) (hsign : x ≠ -0)
    {rest : List UInt16} (hrest : Stops rest) :
    readScalar (numberUnits x ++ rest) = some (.number x, rest) := by
  obtain ⟨u, us, hcons, hu⟩ := numberUnits_eq_cons hfinite
  have hread := readNumber_numberUnits hfinite hsign hrest
  rw [hcons, List.cons_append] at hread ⊢
  rw [readScalar,
    readWord_of_ne (c := 'n') rfl (by decide) _ (hu.ne (by decide) (by decide)),
    readWord_of_ne (c := 't') rfl (by decide) _ (hu.ne (by decide) (by decide)),
    readWord_of_ne (c := 'f') rfl (by decide) _ (hu.ne (by decide) (by decide)), hread]
  rfl

/-! ## Containers -/

/-- A value's text starts with a unit that opens a value. -/
theorem units_eq_cons (v : Json) : ∃ u us, units v = u :: us ∧ Opens u := by
  cases v with
  | null => exact ⟨_, _, rfl, by decide⟩
  | bool b => cases b <;> exact ⟨_, _, rfl, by decide⟩
  | number x =>
    rw [units, numberToken]
    split
    · rename_i hfinite
      obtain ⟨u, us, hcons, hu⟩ := numberUnits_eq_cons hfinite
      exact ⟨u, us, hcons, hu.opens⟩
    · exact ⟨_, _, rfl, by decide⟩
  | text t => exact ⟨_, _, by rw [units, quoted, List.cons_append], by decide⟩
  | array items => exact ⟨_, _, by rw [units, List.cons_append], by decide⟩
  | object members => exact ⟨_, _, by rw [units, List.cons_append], by decide⟩

/-- A value's text is read as that value wherever it ends with a stop. -/
def Reads (v : Json) : Prop :=
  ∀ (fuel : Nat) (rest : List UInt16), (units v).length ≤ fuel → Stops rest →
    readValue fuel (units v ++ rest) = some (v, rest)

theorem itemUnits_cons_cons (v w : Json) (items : List Json) :
    itemUnits (v :: w :: items) = units v ++ unit ',' :: itemUnits (w :: items) := by
  rw [itemUnits]
  exact List.cons_ne_nil w items

theorem memberUnits_cons_cons (key : Text) (v : Json) (m : Text × Json)
    (members : List (Text × Json)) :
    memberUnits ((key, v) :: m :: members) =
      quoted key ++ unit ':' :: units v ++ unit ',' :: memberUnits (m :: members) := by
  rw [memberUnits]
  exact List.cons_ne_nil m members

theorem itemUnits_eq_cons (v : Json) (items : List Json) :
    ∃ u us, itemUnits (v :: items) = u :: us ∧ Opens u := by
  obtain ⟨u, us, hcons, hu⟩ := units_eq_cons v
  cases items with
  | nil => exact ⟨u, us, by rw [itemUnits, hcons], hu⟩
  | cons w items => exact ⟨u, _, by rw [itemUnits_cons_cons, hcons, List.cons_append], hu⟩

theorem memberUnits_eq_cons (m : Text × Json) (members : List (Text × Json)) :
    ∃ us, memberUnits (m :: members) = unit '"' :: us := by
  cases members with
  | nil => exact ⟨_, by rw [memberUnits, quoted_append]⟩
  | cons w members => exact ⟨_, by rw [memberUnits_cons_cons, List.append_assoc, quoted_append]⟩

/-- The items of an array are read up to its bracket.  Every item takes one off the fuel, and at
least one unit, its text. -/
theorem readItems_itemUnits {items : List Json} (hne : items ≠ []) (hreads : ∀ v ∈ items, Reads v)
    {fuel : Nat} (hfuel : (itemUnits items).length < fuel) (done : List Json) (rest : List UInt16) :
    readItems fuel done (itemUnits items ++ unit ']' :: rest) =
      some (.array (done.reverse ++ items), rest) := by
  induction items generalizing fuel done with
  | nil => exact absurd rfl hne
  | cons v items ih =>
    obtain ⟨fuel, rfl⟩ := Nat.exists_eq_add_one_of_ne_zero (Nat.ne_zero_of_lt hfuel)
    have hv := hreads v List.mem_cons_self
    cases items with
    | nil =>
      rw [itemUnits] at hfuel ⊢
      rw [readItems_succ, hv fuel _ (by omega) (stops_cons (by decide) rest), Option.bind_some,
        readBehind_close (by decide) (by decide), List.reverse_cons]
    | cons w items =>
      have htail : ∀ u ∈ w :: items, Reads u := fun u hu => hreads u (List.mem_cons_of_mem v hu)
      rw [itemUnits_cons_cons, List.length_append, List.length_cons] at hfuel
      rw [itemUnits_cons_cons, List.append_assoc, List.cons_append, readItems_succ,
        hv fuel _ (by omega) (stops_cons (by decide) _), Option.bind_some, readBehind_comma,
        ih (List.cons_ne_nil w items) htail (by omega), List.reverse_cons, List.append_assoc,
        List.singleton_append]

/-- The members of an object are read up to its brace, and then set one after the other. -/
theorem readMembers_memberUnits {members : List (Text × Json)} (hne : members ≠ [])
    (hreads : ∀ m ∈ members, Reads m.2) {fuel : Nat} (hfuel : (memberUnits members).length < fuel)
    (done : List (Text × Json)) (rest : List UInt16) :
    readMembers fuel done (memberUnits members ++ unit '\x7d' :: rest) =
      some (.object (Fields.ofPairs (done.reverse ++ members)), rest) := by
  induction members generalizing fuel done with
  | nil => exact absurd rfl hne
  | cons m members ih =>
    obtain ⟨fuel, rfl⟩ := Nat.exists_eq_add_one_of_ne_zero (Nat.ne_zero_of_lt hfuel)
    obtain ⟨key, v⟩ := m
    have hv : Reads v := hreads (key, v) List.mem_cons_self
    cases members with
    | nil =>
      rw [memberUnits, List.length_append, List.length_cons] at hfuel
      rw [memberUnits, List.append_assoc, List.cons_append, readMembers_succ, readKey_quoted,
        Option.bind_some, hv fuel _ (by omega) (stops_cons (by decide) rest), Option.bind_some,
        readBehind_close (by decide) (by decide), List.reverse_cons]
    | cons w members =>
      have htail : ∀ u ∈ w :: members, Reads u.2 := fun u hu => hreads u (List.mem_cons_of_mem _ hu)
      rw [memberUnits_cons_cons, List.length_append, List.length_append, List.length_cons,
        List.length_cons] at hfuel
      rw [memberUnits_cons_cons, List.append_assoc, List.append_assoc, List.cons_append,
        List.cons_append, readMembers_succ, readKey_quoted, Option.bind_some,
        hv fuel _ (by omega) (stops_cons (by decide) _), Option.bind_some, readBehind_comma,
        ih (List.cons_ne_nil w members) htail (by omega), List.reverse_cons, List.append_assoc,
        List.singleton_append]

/-! ## Values -/

/-- A text has units, so reading one needs some fuel. -/
theorem reads_of_succ {v : Json}
    (h : ∀ (fuel : Nat) (rest : List UInt16), (units v).length ≤ fuel + 1 → Stops rest →
      readValue (fuel + 1) (units v ++ rest) = some (v, rest)) : Reads v := by
  intro fuel rest hfuel hrest
  obtain ⟨u, us, hcons, -⟩ := units_eq_cons v
  obtain ⟨fuel, rfl⟩ : ∃ k, fuel = k + 1 := by
    rw [hcons, List.length_cons] at hfuel
    exact Nat.exists_eq_add_one_of_ne_zero (by omega)
  exact h fuel rest hfuel hrest

theorem reads_number {x : Float} (hfinite : x.isFinite = true) (hsign : x ≠ -0) :
    Reads (.number x) := by
  refine reads_of_succ fun fuel rest _ hrest => ?_
  obtain ⟨u, us, hcons, hu⟩ := numberUnits_eq_cons hfinite
  have hread := readScalar_number hfinite hsign hrest
  rw [units, numberToken, if_pos hfinite]
  rw [hcons, List.cons_append] at hread ⊢
  rw [readValue_cons hu.opens.1, if_neg (hu.ne (by decide) (by decide)),
    if_neg (hu.ne (by decide) (by decide)), if_neg (hu.ne (by decide) (by decide)), hread]

theorem reads_text (t : Text) : Reads (.text t) := by
  refine reads_of_succ fun fuel rest _ _ => ?_
  rw [units, quoted_append, readValue_cons (by decide), if_pos rfl, readText_quoted]
  rfl

theorem reads_array {items : List Json} (hreads : ∀ v ∈ items, Reads v) : Reads (.array items) := by
  refine reads_of_succ fun fuel rest hfuel _ => ?_
  rw [units, List.length_append, List.length_cons, List.length_singleton] at hfuel
  rw [units, List.append_assoc, List.cons_append, List.singleton_append,
    readValue_cons (by decide), if_neg (by decide), if_pos rfl]
  cases items with
  | nil => rw [itemUnits, List.nil_append, readContainer_close (by decide)]
  | cons v items =>
    have hfuel : (itemUnits (v :: items)).length < fuel := by omega
    have hread := readItems_itemUnits (List.cons_ne_nil v items) hreads hfuel [] rest
    obtain ⟨u, us, hcons, hblank, hbracket, -⟩ := itemUnits_eq_cons v items
    rw [hcons, List.cons_append] at hread ⊢
    rw [readContainer_cons hblank hbracket, hread]
    rfl

theorem reads_object {members : List (Text × Json)} (horder : Fields.Canonical members)
    (hreads : ∀ m ∈ members, Reads m.2) : Reads (.object members) := by
  refine reads_of_succ fun fuel rest hfuel _ => ?_
  rw [units, List.length_append, List.length_cons, List.length_singleton] at hfuel
  rw [units, List.append_assoc, List.cons_append, List.singleton_append,
    readValue_cons (by decide), if_neg (by decide), if_neg (by decide), if_pos rfl]
  cases members with
  | nil => rw [memberUnits, List.nil_append, readContainer_close (by decide)]
  | cons m members =>
    have hfuel : (memberUnits (m :: members)).length < fuel := by omega
    have hread := readMembers_memberUnits (List.cons_ne_nil m members) hreads hfuel [] rest
    obtain ⟨us, hcons⟩ := memberUnits_eq_cons m members
    rw [List.reverse_nil, List.nil_append, Fields.ofPairs_of_canonical horder] at hread
    rw [hcons, List.cons_append] at hread ⊢
    rw [readContainer_cons (by decide) (by decide), hread]

/-- **The text of a faithful value is read as that value**, and reading stops behind it. -/
theorem reads_of_faithful {v : Json} (h : Faithful v) : Reads v := by
  induction h with
  | null => exact reads_of_succ fun _ _ _ _ => rfl
  | bool b => cases b <;> exact reads_of_succ fun _ _ _ _ => rfl
  | number hfinite hsign => exact reads_number hfinite hsign
  | text t => exact reads_text t
  | array _ ih => exact reads_array ih
  | object horder _ ih => exact reads_object horder ih

/-- **A faithful value that is written and read is itself again.** -/
theorem parse?_render {v : Json} (h : Faithful v) : parse? (render v) = some v := by
  have hread := reads_of_faithful h (2 * (units v).length + 2) [] (by omega) stops_nil
  rw [List.append_nil] at hread
  rw [parse?, parseUnits?, render, hread]
  rfl

end Honeycomb.Json
