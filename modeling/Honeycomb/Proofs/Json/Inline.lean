import Mathlib.Data.List.Infix
import Honeycomb.Json.Inline
import Honeycomb.Proofs.Json.Reading

/-!
# Guarded units are read like the units themselves

* `not_infix_guardClosers` — guarded units hold no `</`.
* `SeesThrough` — a reader of a token stops at the same place, guards or not.
* `readText_guardClosers` — inside quotes, `\/` is read like `/`.
* `parse?_guardClosers` — so whatever a text stands for, its guarded text stands for too.
* `inline_lossless` — a value inside a script element cannot end it, and is read back.
-/

set_option autoImplicit false

namespace Honeycomb.Json

open Text (unit unitsOf dropStart?)

/-! ## Guarding -/

theorem head?_guardClosers (us : List UInt16) : (guardClosers us).head? = us.head? := by
  cases us with
  | nil => rfl
  | cons u us =>
    rw [guardClosers, List.foldr_cons, guardUnit]
    split <;> rfl

theorem guardClosers_of_ne {u : UInt16} (hu : u ≠ unit '<') (us : List UInt16) :
    guardClosers (u :: us) = u :: guardClosers us := by
  rw [guardClosers, List.foldr_cons, guardUnit, if_neg (by simp [hu])]
  rfl

theorem guardClosers_closer (us : List UInt16) :
    guardClosers (unit '<' :: unit '/' :: us) =
      unit '<' :: unit '\\' :: unit '/' :: guardClosers us := by
  rw [guardClosers, List.foldr_cons, ← guardClosers, guardClosers_of_ne (by decide), guardUnit]
  rfl

/-- What guarding does to a unit: nothing, or a backslash keeps it from the next one. -/
theorem guardClosers_cons (u : UInt16) (us : List UInt16) :
    (guardClosers (u :: us) = u :: guardClosers us ∧
        (u = unit '<' → us.head? ≠ some (unit '/'))) ∨
      ∃ rest, u = unit '<' ∧ us = unit '/' :: rest ∧
        guardClosers (u :: us) = unit '<' :: unit '\\' :: unit '/' :: guardClosers rest := by
  by_cases hcloser : u = unit '<' ∧ us.head? = some (unit '/')
  · obtain ⟨rfl, hhead⟩ := hcloser
    obtain ⟨rest, rfl⟩ := List.head?_eq_some_iff.mp hhead
    exact .inr ⟨rest, rfl, rfl, guardClosers_closer rest⟩
  · refine .inl ⟨?_, fun hu hhead => hcloser ⟨hu, hhead⟩⟩
    rw [guardClosers, List.foldr_cons, ← guardClosers, guardUnit, if_neg]
    · simpa [head?_guardClosers] using hcloser

/-- A guarded list starts like the list itself. -/
theorem exists_guardClosers_cons (u : UInt16) (us : List UInt16) :
    ∃ more, guardClosers (u :: us) = u :: more := by
  rw [guardClosers, List.foldr_cons, guardUnit]
  split <;> exact ⟨_, rfl⟩

/-- **Guarded units hold no `</`.** -/
theorem not_infix_guardClosers (us : List UInt16) : ¬ unitsOf "</" <:+: guardClosers us := by
  have hunits : unitsOf "</" = [unit '<', unit '/'] := by decide
  rw [hunits]
  induction us with
  | nil => simp [guardClosers]
  | cons u us ih =>
    rcases guardClosers_cons u us with ⟨hcons, hhead⟩ | ⟨rest, rfl, rfl, hcons⟩
    · rw [hcons, List.infix_cons_iff, List.cons_prefix_cons]
      rintro (⟨hu, hmore⟩ | h)
      · refine hhead hu.symm ?_
        rw [← head?_guardClosers]
        obtain ⟨more, hmore⟩ := hmore
        rw [← hmore]
        rfl
      · exact ih h
    · rw [guardClosers_of_ne (by decide)] at ih
      rw [hcons, List.infix_cons_iff, List.infix_cons_iff, List.cons_prefix_cons,
        List.cons_prefix_cons, List.cons_prefix_cons]
      rintro (⟨-, h, -⟩ | ⟨h, -⟩ | h)
      · exact absurd h (by decide)
      · exact absurd h (by decide)
      · exact ih h

/-! ## Tokens -/

section Tokens

variable {α β : Type}

theorem ne_less_of_pass {p : UInt16 → Bool} (hp : p (unit '<') = false) {u : UInt16}
    (hu : p u = true) : u ≠ unit '<' := by
  rintro rfl
  rw [hp] at hu
  cases hu

theorem takeWhile_guardClosers {p : UInt16 → Bool} (hp : p (unit '<') = false)
    (us : List UInt16) : (guardClosers us).takeWhile p = us.takeWhile p := by
  induction us with
  | nil => rfl
  | cons u us ih =>
    by_cases hu : p u = true
    · rw [guardClosers_of_ne (ne_less_of_pass hp hu), List.takeWhile_cons_of_pos hu,
        List.takeWhile_cons_of_pos hu, ih]
    · obtain ⟨more, hmore⟩ := exists_guardClosers_cons u us
      rw [hmore, List.takeWhile_cons_of_neg hu, List.takeWhile_cons_of_neg hu]

theorem dropWhile_guardClosers {p : UInt16 → Bool} (hp : p (unit '<') = false)
    (us : List UInt16) : (guardClosers us).dropWhile p = guardClosers (us.dropWhile p) := by
  induction us with
  | nil => rfl
  | cons u us ih =>
    by_cases hu : p u = true
    · rw [guardClosers_of_ne (ne_less_of_pass hp hu), List.dropWhile_cons_of_pos hu,
        List.dropWhile_cons_of_pos hu, ih]
    · obtain ⟨more, hmore⟩ := exists_guardClosers_cons u us
      rw [List.dropWhile_cons_of_neg hu, hmore, List.dropWhile_cons_of_neg hu]

theorem take_guardClosers (us : List UInt16) :
    Digits.take (guardClosers us) = ((Digits.take us).1, guardClosers (Digits.take us).2) := by
  rw [Digits.take, takeWhile_guardClosers (by decide), dropWhile_guardClosers (by decide)]
  rfl

theorem dropStart?_guardClosers {start : List UInt16} (hstart : unit '<' ∉ start)
    (us : List UInt16) :
    dropStart? start (guardClosers us) = (dropStart? start us).map guardClosers := by
  induction start generalizing us with
  | nil => rfl
  | cons s start ih =>
    rw [List.mem_cons, not_or] at hstart
    cases us with
    | nil => rfl
    | cons u us =>
      by_cases hs : s = u
      · subst hs
        rw [guardClosers_of_ne (Ne.symm hstart.1), dropStart?, dropStart?, if_pos rfl, if_pos rfl,
          ih hstart.2]
      · obtain ⟨more, hmore⟩ := exists_guardClosers_cons u us
        rw [hmore, dropStart?, dropStart?, if_neg hs, if_neg hs]
        rfl

theorem skipBlanks_guardClosers (us : List UInt16) :
    skipBlanks (guardClosers us) = guardClosers (skipBlanks us) :=
  dropWhile_guardClosers (by decide) us

theorem mark?_guardClosers {c : Char} (hc : unit c ≠ unit '<') (us : List UInt16) :
    mark? c (guardClosers us) = (mark? c us).map guardClosers := by
  rw [mark?, skipBlanks_guardClosers, dropStart?_guardClosers (by simpa using Ne.symm hc)]
  rfl

/-- A reader that reads the same from guarded units, and leaves the guarded rest. -/
def SeesThrough (f : List UInt16 → Option (α × List UInt16)) : Prop :=
  ∀ us, f (guardClosers us) = (f us).map fun r => (r.1, guardClosers r.2)

theorem SeesThrough.map {f : List UInt16 → Option (α × List UInt16)} (hf : SeesThrough f)
    (g : α → β) : SeesThrough fun us => (f us).map fun r => (g r.1, r.2) := by
  intro us
  dsimp only
  rw [hf us, Option.map_map, Option.map_map]
  rfl

theorem SeesThrough.bind {f : List UInt16 → Option (α × List UInt16)} (hf : SeesThrough f)
    {g : α → List UInt16 → Option (β × List UInt16)} (hg : ∀ a, SeesThrough (g a)) :
    SeesThrough fun us => (f us).bind fun r => g r.1 r.2 := by
  intro us
  dsimp only
  rw [hf us]
  cases f us with
  | none => rfl
  | some r => exact hg r.1 r.2

theorem SeesThrough.orElse {f g : List UInt16 → Option (α × List UInt16)} (hf : SeesThrough f)
    (hg : SeesThrough g) : SeesThrough fun us => f us <|> g us := by
  intro us
  dsimp only
  rw [hf us, hg us]
  cases f us <;> rfl

theorem seesThrough_pure (a : α) : SeesThrough fun us => some (a, us) := fun _ => rfl

/-- A reader that goes on differently behind some first unit, if that unit is no `<`. -/
theorem SeesThrough.branch (start : UInt16 → Prop) [DecidablePred start]
    {f h : List UInt16 → Option (α × List UInt16)}
    {g : UInt16 → List UInt16 → Option (α × List UInt16)} (hstart : ¬ start (unit '<'))
    (hg : ∀ u, SeesThrough (g u)) (hh : SeesThrough h) (hnil : f [] = h [])
    (hcons : ∀ u us, f (u :: us) = if start u then g u us else h (u :: us)) : SeesThrough f := by
  intro us
  cases us with
  | nil =>
    show f [] = _
    rw [hnil]
    exact hh []
  | cons u us =>
    by_cases hu : start u
    · have hne : u ≠ unit '<' := by
        rintro rfl
        exact hstart hu
      rw [guardClosers_of_ne hne, hcons, hcons, if_pos hu, if_pos hu]
      exact hg u us
    · obtain ⟨more, hmore⟩ := exists_guardClosers_cons u us
      rw [hcons u us, if_neg hu, ← hh, hmore, hcons, if_neg hu]

/-! ## Numbers and words -/

/-- Digits, of which there must be some. -/
theorem seesThrough_digits (g : List UInt16 → α) :
    SeesThrough fun us =>
      if (Digits.take us).1.isEmpty then none
      else some (g (Digits.take us).1, (Digits.take us).2) := by
  intro us
  dsimp only
  rw [take_guardClosers]
  split <;> rfl

theorem seesThrough_readWhole : SeesThrough readWhole :=
  SeesThrough.branch (· = unit '0') (by decide) (fun u => seesThrough_pure [u])
    (seesThrough_digits id) rfl fun _ _ => rfl

theorem seesThrough_readFraction : SeesThrough readFraction :=
  SeesThrough.branch (· = unit '.') (by decide) (fun _ => seesThrough_digits id)
    (seesThrough_pure []) rfl fun _ _ => rfl

theorem seesThrough_readExponentDigits (negative : Bool) :
    SeesThrough (readExponentDigits negative) :=
  seesThrough_digits fun digits =>
    if negative then -(Digits.toNat digits : Int) else Digits.toNat digits

theorem seesThrough_readSignedExponent : SeesThrough readSignedExponent := by
  refine SeesThrough.branch (fun u => u = unit '-' ∨ u = unit '+') (by decide)
    (fun u => seesThrough_readExponentDigits (u = unit '-'))
    (seesThrough_readExponentDigits false) rfl fun u us => ?_
  rw [readSignedExponent]
  by_cases hminus : u = unit '-'
  · rw [if_pos hminus, if_pos (.inl hminus), decide_eq_true hminus]
  rw [if_neg hminus, decide_eq_false hminus]
  by_cases hplus : u = unit '+'
  · rw [if_pos hplus, if_pos (.inr hplus)]
  · rw [if_neg hplus, if_neg (by simp [hminus, hplus])]

theorem seesThrough_readExponent : SeesThrough readExponent :=
  SeesThrough.branch (fun u => u = unit 'e' ∨ u = unit 'E') (by decide)
    (fun _ => seesThrough_readSignedExponent) (seesThrough_pure 0) rfl fun _ _ => rfl

theorem seesThrough_readUnsigned : SeesThrough readUnsigned :=
  seesThrough_readWhole.bind fun whole =>
    seesThrough_readFraction.bind fun fraction =>
      seesThrough_readExponent.bind fun exponent =>
        seesThrough_pure (floatOfParts whole fraction exponent)

theorem seesThrough_readNumber : SeesThrough readNumber :=
  SeesThrough.branch (· = unit '-') (by decide)
    (fun _ => seesThrough_readUnsigned.map fun x => -x) seesThrough_readUnsigned rfl fun _ _ => rfl

theorem seesThrough_readWord {word : String} (hword : unit '<' ∉ unitsOf word) (value : Json) :
    SeesThrough (readWord word value) := by
  intro us
  rw [readWord, dropStart?_guardClosers hword, readWord, Option.map_map, Option.map_map]
  rfl

theorem seesThrough_readScalar : SeesThrough readScalar :=
  (seesThrough_readWord (by decide) _).orElse <| (seesThrough_readWord (by decide) _).orElse <|
    (seesThrough_readWord (by decide) _).orElse (seesThrough_readNumber.map Json.number)

end Tokens

/-! ## Quoted texts -/

theorem ne_of_hexValue? {u : UInt16} {n : Nat} (h : hexValue? u = some n) : u ≠ unit '<' := by
  rintro rfl
  cases h

theorem hexUnit?_eq_some {a b c d n : UInt16} (h : hexUnit? a b c d = some n) :
    a ≠ unit '<' ∧ b ≠ unit '<' ∧ c ≠ unit '<' ∧ d ≠ unit '<' := by
  simp only [hexUnit?, Option.bind_eq_bind, Option.bind_eq_some_iff] at h
  obtain ⟨_, ha, _, hb, _, hc, _, hd, -⟩ := h
  exact ⟨ne_of_hexValue? ha, ne_of_hexValue? hb, ne_of_hexValue? hc, ne_of_hexValue? hd⟩

theorem readText_hex {a b c d n : UInt16} (hn : hexUnit? a b c d = some n)
    (done rest : List UInt16) :
    readText done (unit '\\' :: unit 'u' :: a :: b :: c :: d :: rest) =
      readText (n :: done) rest := by
  rw [readText.eq_def]
  dsimp only
  rw [if_neg (by decide), if_pos rfl, if_pos rfl, hn]

/-- Inside quotes, a slash may follow a backslash or not. -/
theorem readText_slash (done us : List UInt16) :
    readText done (unit '\\' :: unit '/' :: us) = readText done (unit '/' :: us) := by
  rw [readText_short (n := unit '/') (by decide) (by decide),
    readText_plain (by decide) (by decide) (by decide)]

/-- **A quoted text is read from guarded units as it is without the guards.** -/
theorem readText_guardClosers {done us rest : List UInt16} {t : Text}
    (h : readText done us = some (t, rest)) :
    readText done (guardClosers us) = some (t, guardClosers rest) := by
  fun_induction readText done us with
  | case1 => cases h
  | case2 done more =>
    obtain ⟨rfl, rfl⟩ := Prod.mk.inj (Option.some.inj h)
    rw [guardClosers_of_ne (by decide), readText.eq_def]
    dsimp only
    rw [if_pos rfl]
  | case3 => cases h
  | case4 done a b c d more n hn _ ih =>
    obtain ⟨ha, hb, hc, hd⟩ := hexUnit?_eq_some hn
    rw [guardClosers_of_ne (by decide), guardClosers_of_ne (by decide), guardClosers_of_ne ha,
      guardClosers_of_ne hb, guardClosers_of_ne hc, guardClosers_of_ne hd, readText_hex hn, ih h]
  | case5 => cases h
  | case6 => cases h
  | case7 done e more hu n hn _ ih =>
    have he : e ≠ unit '<' := by
      rintro rfl
      cases hn
    rw [guardClosers_of_ne (by decide), guardClosers_of_ne he, readText_short hu hn, ih h]
  | case8 => cases h
  | case9 => cases h
  | case10 done u more hquote hslash hcontrol ih =>
    have hplain := readText_plain hquote hslash (UInt16.not_lt.mp hcontrol) done
    rcases guardClosers_cons u more with ⟨hcons, -⟩ | ⟨after, rfl, rfl, hcons⟩
    · rw [hcons, hplain, ih h]
    · -- the backslash that keeps the two apart is read away
      have ih := ih h
      rw [guardClosers_of_ne (by decide)] at ih
      rw [hcons, hplain, readText_slash, ih]

theorem readKey_guardClosers {us rest : List UInt16} {key : Text}
    (h : readKey us = some (key, rest)) :
    readKey (guardClosers us) = some (key, guardClosers rest) := by
  simp only [readKey, Option.bind_eq_bind, Option.bind_eq_some_iff] at h
  obtain ⟨quoted, hquote, ⟨t, marked⟩, htext, after, hcolon, heq⟩ := h
  obtain ⟨rfl, rfl⟩ := Prod.mk.inj (Option.some.inj heq)
  rw [readKey, mark?_guardClosers (by decide), hquote]
  dsimp only [Option.bind_eq_bind, Option.map_some, Option.bind_some]
  rw [readText_guardClosers htext]
  dsimp only [Option.bind_some]
  rw [mark?_guardClosers (by decide), hcolon]
  rfl

/-! ## Values -/

/-- What is read with some fuel is read from guarded units with as much, or with more. -/
def Guarded (read : Nat → List UInt16 → Option (Json × List UInt16)) (fuel : Nat) : Prop :=
  ∀ (us : List UInt16) (v : Json) (rest : List UInt16), read fuel us = some (v, rest) →
    ∀ more, fuel ≤ more → read more (guardClosers us) = some (v, guardClosers rest)

variable {fuel : Nat}

/-- It is enough to look at readers that have as much fuel left. -/
theorem guarded_succ {read : Nat → List UInt16 → Option (Json × List UInt16)}
    (h : ∀ (us : List UInt16) (v : Json) (rest : List UInt16), read (fuel + 1) us = some (v, rest) →
      ∀ more, fuel ≤ more → read (more + 1) (guardClosers us) = some (v, guardClosers rest)) :
    Guarded read (fuel + 1) := by
  intro us v rest hread more hmore
  obtain ⟨more, rfl⟩ := Nat.exists_eq_add_one_of_ne_zero (Nat.ne_zero_of_lt hmore)
  exact h us v rest hread more (Nat.le_of_succ_le_succ hmore)

/-- What follows a value is read from guarded units if the rest of the container is. -/
theorem readBehind_guardClosers {close : Char} (hclose : unit close ≠ unit '<')
    {next next' : List UInt16 → Option (Json × List UInt16)} {whole v : Json}
    (hnext : ∀ us rest, next us = some (v, rest) →
      next' (guardClosers us) = some (v, guardClosers rest))
    {us rest : List UInt16} (h : readBehind close next whole us = some (v, rest)) :
    readBehind close next' whole (guardClosers us) = some (v, guardClosers rest) := by
  unfold readBehind at h ⊢
  rw [mark?_guardClosers (by decide), mark?_guardClosers hclose]
  cases hcomma : mark? ',' us with
  | some more =>
    rw [hcomma] at h
    exact hnext more rest h
  | none =>
    rw [hcomma] at h
    cases hend : mark? close us with
    | none =>
      rw [hend] at h
      cases h
    | some more =>
      rw [hend] at h
      obtain ⟨rfl, rfl⟩ := Prod.mk.inj (Option.some.inj h)
      rfl

theorem guarded_readItems_succ (hvalue : Guarded readValue fuel)
    (hitems : ∀ done, Guarded (fun fuel => readItems fuel done) fuel) (done : List Json) :
    Guarded (fun fuel => readItems fuel done) (fuel + 1) := by
  refine guarded_succ fun us v rest h more hmore => ?_
  rw [readItems_succ] at h ⊢
  obtain ⟨⟨w, after⟩, hv, hbehind⟩ := Option.bind_eq_some_iff.mp h
  rw [hvalue us w after hv more hmore, Option.bind_some]
  refine readBehind_guardClosers (by decide) (fun us rest hnext => ?_) hbehind
  exact hitems (w :: done) us v rest hnext more hmore

theorem guarded_readMembers_succ (hvalue : Guarded readValue fuel)
    (hmembers : ∀ done, Guarded (fun fuel => readMembers fuel done) fuel)
    (done : List (Text × Json)) : Guarded (fun fuel => readMembers fuel done) (fuel + 1) := by
  refine guarded_succ fun us v rest h more hmore => ?_
  rw [readMembers_succ] at h ⊢
  obtain ⟨⟨key, marked⟩, hkey, h⟩ := Option.bind_eq_some_iff.mp h
  obtain ⟨⟨w, after⟩, hv, hbehind⟩ := Option.bind_eq_some_iff.mp h
  rw [readKey_guardClosers hkey, Option.bind_some, hvalue marked w after hv more hmore,
    Option.bind_some]
  refine readBehind_guardClosers (by decide) (fun us rest hnext => ?_) hbehind
  exact hmembers ((key, w) :: done) us v rest hnext more hmore

/-- A container is read from guarded units, empty or not. -/
theorem readContainer_guardClosers {close : Char} (hclose : unit close ≠ unit '<')
    {next next' : List UInt16 → Option (Json × List UInt16)} {empty v : Json}
    (hnext : ∀ us rest, next us = some (v, rest) →
      next' (guardClosers us) = some (v, guardClosers rest))
    {us rest : List UInt16} (h : readContainer close next empty us = some (v, rest)) :
    readContainer close next' empty (guardClosers us) = some (v, guardClosers rest) := by
  unfold readContainer at h ⊢
  rw [mark?_guardClosers hclose]
  cases hend : mark? close us with
  | some more =>
    rw [hend] at h
    obtain ⟨rfl, rfl⟩ := Prod.mk.inj (Option.some.inj h)
    rfl
  | none =>
    rw [hend] at h
    exact hnext us rest h

theorem guarded_readValue_succ (hitems : ∀ done, Guarded (fun fuel => readItems fuel done) fuel)
    (hmembers : ∀ done, Guarded (fun fuel => readMembers fuel done) fuel) :
    Guarded readValue (fuel + 1) := by
  refine guarded_succ fun us v rest h more hmore => ?_
  rw [readValue] at h ⊢
  rw [mark?_guardClosers (by decide), mark?_guardClosers (by decide),
    mark?_guardClosers (by decide)]
  cases hquote : mark? '"' us with
  | some next =>
    rw [hquote] at h
    obtain ⟨⟨t, after⟩, htext, heq⟩ := Option.map_eq_some_iff.mp h
    obtain ⟨rfl, rfl⟩ := Prod.mk.inj heq
    dsimp only [Option.map_some]
    rw [readText_guardClosers htext]
    rfl
  | none =>
  rw [hquote] at h
  cases hbracket : mark? '[' us with
  | some next =>
    rw [hbracket] at h
    exact readContainer_guardClosers (by decide)
      (fun us rest hnext => hitems [] us v rest hnext more hmore) h
  | none =>
  rw [hbracket] at h
  cases hbrace : mark? '\x7b' us with
  | some next =>
    rw [hbrace] at h
    exact readContainer_guardClosers (by decide)
      (fun us rest hnext => hmembers [] us v rest hnext more hmore) h
  | none =>
    rw [hbrace] at h
    dsimp only [Option.map_none] at h ⊢
    rw [skipBlanks_guardClosers, seesThrough_readScalar, h]
    rfl

/-- **Whatever is read is read from guarded units**, with as much fuel or with more. -/
theorem guarded_all (fuel : Nat) :
    Guarded readValue fuel ∧ (∀ done, Guarded (fun fuel => readItems fuel done) fuel) ∧
      ∀ done, Guarded (fun fuel => readMembers fuel done) fuel := by
  induction fuel with
  | zero =>
    refine ⟨?_, fun done => ?_, fun done => ?_⟩
    all_goals
      intro us v rest h
      cases h
  | succ fuel ih =>
    obtain ⟨hvalue, hitems, hmembers⟩ := ih
    exact ⟨guarded_readValue_succ hitems hmembers, guarded_readItems_succ hvalue hitems,
      guarded_readMembers_succ hvalue hmembers⟩

theorem length_le_guardClosers (us : List UInt16) : us.length ≤ (guardClosers us).length := by
  induction us with
  | nil => exact Nat.le_refl 0
  | cons u us ih =>
    rw [guardClosers, List.foldr_cons, ← guardClosers, guardUnit]
    split
    · simp only [List.length_cons]
      omega
    · exact Nat.succ_le_succ ih

/-- **What a text stands for, its guarded text stands for too.** -/
theorem parse?_guardClosers {t : Text} {v : Json} (h : parse? t = some v) :
    parse? ⟨guardClosers t.units⟩ = some v := by
  unfold parse? parseUnits? at h ⊢
  cases hread : readValue (2 * t.units.length + 2) t.units with
  | none =>
    rw [hread] at h
    cases h
  | some read =>
    obtain ⟨w, rest⟩ := read
    have hlength := length_le_guardClosers t.units
    rw [hread] at h
    dsimp only at h ⊢
    rw [(guarded_all _).1 t.units w rest hread _ (by omega)]
    dsimp only
    rw [skipBlanks_guardClosers]
    split at h
    · rename_i hempty
      rw [List.isEmpty_iff.mp hempty]
      exact h
    · cases h

/-! ## Values inside a script element -/

/-- **A value inside a script element does not end it, and is read back from it.** -/
theorem inline_lossless (v : Json) :
    ¬ unitsOf "</" <:+: v.inline.units ∧ (Faithful v → parse? v.inline = some v) :=
  ⟨not_infix_guardClosers (units v), fun h => parse?_guardClosers (parse?_render h)⟩

/-- A value with what ends a script element in its keys and texts. -/
def closers : Json :=
  .object [(Text.ofString "7", .array [.text "</script>", .array [], .number 0.1]),
    (Text.ofString "</", .object [(Text.ofString "\\</", .null), (Text.ofString "<", .bool true)]),
    (Text.ofString "/", .number (-2.5e-7))]

theorem faithful_closers : Faithful closers := by
  have hseven : Faithful (.array [.text "</script>", .array [], .number 0.1]) := by
    refine .array ?_
    rw [List.forall_mem_cons, List.forall_mem_cons, List.forall_mem_singleton]
    exact ⟨.text _, .array (by simp), .number (by decide +kernel) (by decide +kernel)⟩
  have hcloser :
      Faithful (.object [(Text.ofString "\\</", .null), (Text.ofString "<", .bool true)]) := by
    refine .object (by decide +kernel) ?_
    rw [List.forall_mem_cons, List.forall_mem_singleton]
    exact ⟨.null, .bool true⟩
  refine .object (by decide +kernel) ?_
  rw [List.forall_mem_cons, List.forall_mem_cons, List.forall_mem_singleton]
  exact ⟨hseven, hcloser, .number (by decide +kernel) (by decide +kernel)⟩

theorem closers_lossless :
    Faithful closers ∧ ¬ unitsOf "</" <:+: closers.inline.units ∧
      parse? closers.inline = some closers :=
  ⟨faithful_closers, (inline_lossless closers).1, (inline_lossless closers).2 faithful_closers⟩

end Honeycomb.Json
