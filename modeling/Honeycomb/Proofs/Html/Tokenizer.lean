import Honeycomb.Proofs.Html.Script

/-!
# Where a script element ends

The states in which a browser reads the text of a script element, and how it goes from one to the
next.

* `Script.Safe` — what must not stand in the units that are still to be read.
* `Safe.step`, `Safe.run` — reading a unit, and so reading all of them, stays safe.
* `Script.closes_of_not_hides` — a script that hides nothing ends at the tag behind it.
-/

set_option autoImplicit false

namespace Honeycomb.Script

open Text (unit unitsOf)

/-- Where reading the text of a script element stands. -/
inductive State
  /-- In the script. -/
  | data
  /-- Behind `<`. -/
  | less
  /-- Behind `</`. -/
  | closer
  /-- Behind `</` and letters. -/
  | closerName (name : List UInt16)
  /-- Behind `<!`. -/
  | bang
  /-- Behind `<!-`. -/
  | bangDash
  /-- In a comment, behind dashes; more than two are counted as two. -/
  | comment (dashes : Nat)
  /-- In a comment, behind `<`. -/
  | commentLess
  /-- In a comment, behind `</`. -/
  | commentCloser
  /-- In a comment, behind `</` and letters. -/
  | commentCloserName (name : List UInt16)
  /-- In a comment, behind `<` and letters. -/
  | nestName (name : List UInt16)
  /-- In a script inside a comment, behind dashes. -/
  | nested (dashes : Nat)
  /-- In a script inside a comment, behind `<`. -/
  | nestedLess
  /-- In a script inside a comment, behind `</` and letters. -/
  | nestedCloserName (name : List UInt16)
  /-- Behind the element. -/
  | ended
deriving DecidableEq

namespace State

def isLetter (u : UInt16) : Bool := 97 ≤ lower u && lower u ≤ 122

def isStop (u : UInt16) : Bool := u ∈ [9, 10, 12, unit ' ', unit '/', unit '>']

def isScript (name : List UInt16) : Bool := name.map lower == unitsOf "script"

def inData (u : UInt16) : State := if u = unit '<' then .less else .data

def inComment (dashes : Nat) (u : UInt16) : State :=
  if u = unit '-' then .comment (min 2 (dashes + 1))
  else if u = unit '<' then .commentLess
  else if u = unit '>' ∧ dashes = 2 then .data
  else .comment 0

def inNested (dashes : Nat) (u : UInt16) : State :=
  if u = unit '-' then .nested (min 2 (dashes + 1))
  else if u = unit '<' then .nestedLess
  else if u = unit '>' ∧ dashes = 2 then .data
  else .nested 0

def step : State → UInt16 → State
  | .data, u => inData u
  | .less, u => if u = unit '/' then .closer else if u = unit '!' then .bang else inData u
  | .closer, u => if isLetter u then .closerName [u] else inData u
  | .closerName name, u =>
    if isStop u && isScript name then .ended
    else if isLetter u then .closerName (name ++ [u])
    else inData u
  | .bang, u => if u = unit '-' then .bangDash else inData u
  | .bangDash, u => if u = unit '-' then .comment 2 else inData u
  | .comment dashes, u => inComment dashes u
  | .commentLess, u =>
    if u = unit '/' then .commentCloser
    else if isLetter u then .nestName [u]
    else inComment 0 u
  | .commentCloser, u => if isLetter u then .commentCloserName [u] else inComment 0 u
  | .commentCloserName name, u =>
    if isStop u && isScript name then .ended
    else if isLetter u then .commentCloserName (name ++ [u])
    else inComment 0 u
  | .nestName name, u =>
    if isStop u then (if isScript name then .nested 0 else .comment 0)
    else if isLetter u then .nestName (name ++ [u])
    else inComment 0 u
  | .nested dashes, u => inNested dashes u
  | .nestedLess, u => if u = unit '/' then .nestedCloserName [] else inNested 0 u
  | .nestedCloserName name, u =>
    if isStop u then (if isScript name then .comment 0 else .nested 0)
    else if isLetter u then .nestedCloserName (name ++ [u])
    else inNested 0 u
  | .ended, _ => .ended

def run (s : State) (us : List UInt16) : State := us.foldl step s

end State

/-- **The closing tag behind units ends the script element**, and nothing ends it before. -/
def Closes (us : List UInt16) : Prop :=
  State.run .data (us ++ unitsOf "</script") ≠ .ended ∧
    State.run .data (us ++ unitsOf "</script>") = .ended

/-! ## Safe states -/

variable {us vs : List UInt16} {u : UInt16} {s : State}

theorem heads_closes_iff : Heads .closes us ↔ unitsOf "-->" <+: us := by
  constructor
  · rintro ⟨_, rfl, h⟩
    exact h
  · exact fun h => ⟨_, rfl, h⟩

theorem not_hides_tail (h : ¬ Hides (u :: us)) : ¬ Hides us := fun htail =>
  h (hides_cons.mpr (.inr htail))

theorem not_reaches_tail (h : ¬ Reaches (u :: us)) (hu : ¬ Heads .closes (u :: us)) :
    ¬ Reaches us := fun htail => h (reaches_cons.mpr (.inr ⟨hu, htail⟩))

/-- What must not come next in a state, if no script inside a comment is to be reached. -/
inductive Safe : State → List UInt16 → Prop
  | data {us : List UInt16} (h : ¬ Hides us) : Safe .data us
  | less {us : List UInt16} (h : ¬ Hides (unit '<' :: us)) (closed : us.head? ≠ some (unit '/')) :
      Safe .less us
  | bang {us : List UInt16} (h : ¬ Hides (unit '<' :: unit '!' :: us)) : Safe .bang us
  | bangDash {us : List UInt16} (h : ¬ Hides (unit '<' :: unit '!' :: unit '-' :: us)) :
      Safe .bangDash us
  | comment {us : List UInt16} {dashes : Nat} (few : dashes ≤ 2) (h : ¬ Hides us)
      (reach : ¬ Reaches (List.replicate dashes (unit '-') ++ us)) : Safe (.comment dashes) us
  | commentLess {us : List UInt16} (h : ¬ Hides us) (reach : ¬ Reaches (unit '<' :: us))
      (closed : us.head? ≠ some (unit '/')) : Safe .commentLess us
  | nestName {us name : List UInt16} (letters : ∀ u ∈ name, State.isLetter u = true)
      (h : ¬ Hides us) (reach : ¬ Reaches (unit '<' :: name ++ us)) : Safe (.nestName name) us

theorem not_closes_of_ne (hu : u ≠ unit '-') : ¬ Heads .closes (u :: us) := by
  rw [heads_closes_iff]
  exact fun h => hu (List.cons_prefix_cons.mp h).1.symm

theorem head?_ne_slash (h : ¬ unitsOf "</" <+: unit '<' :: us) :
    us.head? ≠ some (unit '/') := by
  intro hhead
  obtain ⟨rest, rfl⟩ := List.head?_eq_some_iff.mp hhead
  exact h ⟨rest, rfl⟩

/-- Units without dashes end no comment. -/
theorem not_reaches_append {ws : List UInt16} (hws : ∀ u ∈ ws, u ≠ unit '-')
    (h : ¬ Reaches (ws ++ us)) : ¬ Reaches us := by
  induction ws with
  | nil => exact h
  | cons w ws ih =>
    rw [List.forall_mem_cons] at hws
    exact ih hws.2 (not_reaches_tail h (not_closes_of_ne hws.1))

/-- Neither do dashes, if nothing follows that ends the comment with them. -/
theorem not_reaches_dashes {dashes : Nat} (hfew : dashes ≤ 2) (hu : u ≠ unit '-')
    (hend : ¬ (u = unit '>' ∧ dashes = 2))
    (h : ¬ Reaches (List.replicate dashes (unit '-') ++ u :: us)) : ¬ Reaches (u :: us) := by
  have hone : ¬ Heads .closes (unit '-' :: u :: us) := by
    rw [heads_closes_iff]
    intro hle
    exact hu (List.cons_prefix_cons.mp (List.cons_prefix_cons.mp hle).2).1.symm
  have hcases : dashes = 0 ∨ dashes = 1 ∨ dashes = 2 := by omega
  rcases hcases with rfl | rfl | rfl
  · exact h
  · exact not_reaches_tail h hone
  · refine not_reaches_tail (not_reaches_tail h ?_) hone
    rw [heads_closes_iff]
    intro hle
    have hhead := (List.cons_prefix_cons.mp (List.cons_prefix_cons.mp hle).2).2
    exact hend ⟨(List.cons_prefix_cons.mp hhead).1.symm, rfl⟩

theorem Safe.inData (h : ¬ Hides (u :: us)) (hclosed : ¬ unitsOf "</" <+: u :: us) :
    Safe (State.inData u) us := by
  unfold State.inData
  split
  · rename_i hu
    subst hu
    exact .less h (head?_ne_slash hclosed)
  · exact .data (not_hides_tail h)

theorem Safe.inComment {dashes : Nat} (hfew : dashes ≤ 2) (h : ¬ Hides (u :: us))
    (hreach : ¬ Reaches (List.replicate dashes (unit '-') ++ u :: us))
    (hclosed : ¬ unitsOf "</" <+: u :: us) : Safe (State.inComment dashes u) us := by
  unfold State.inComment
  by_cases hdash : u = unit '-'
  · rw [if_pos hdash]
    subst hdash
    refine .comment (Nat.min_le_left _ _) (not_hides_tail h) ?_
    have hcases : dashes = 0 ∨ dashes = 1 ∨ dashes = 2 := by omega
    rcases hcases with rfl | rfl | rfl
    · exact hreach
    · exact hreach
    · -- of three dashes the first ends nothing
      refine not_reaches_tail hreach ?_
      rw [heads_closes_iff]
      intro hle
      have hthird := (List.cons_prefix_cons.mp (List.cons_prefix_cons.mp hle).2).2
      exact absurd (List.cons_prefix_cons.mp hthird).1 (by decide)
  rw [if_neg hdash]
  by_cases hless : u = unit '<'
  · rw [if_pos hless]
    subst hless
    refine .commentLess (not_hides_tail h) ?_ (head?_ne_slash hclosed)
    exact not_reaches_dashes hfew hdash (fun hend => absurd hend.1 (by decide)) hreach
  rw [if_neg hless]
  by_cases hend : u = unit '>' ∧ dashes = 2
  · rw [if_pos hend]
    exact .data (not_hides_tail h)
  · rw [if_neg hend]
    refine .comment (Nat.zero_le 2) (not_hides_tail h) ?_
    exact not_reaches_tail (not_reaches_dashes hfew hdash hend hreach) (not_closes_of_ne hdash)

/-- Of the units that end a name, only three are no controls. -/
theorem mem_stops_of_isStop (hstop : State.isStop u = true) (hu : 32 ≤ u.toNat) :
    u ∈ [unit ' ', unit '/', unit '>'] := by
  have hmem : u ∈ [9, 10, 12, unit ' ', unit '/', unit '>'] := of_decide_eq_true hstop
  simp only [List.mem_cons, List.not_mem_nil, or_false] at hmem ⊢
  rcases hmem with rfl | rfl | rfl | h
  · exact absurd hu (by decide)
  · exact absurd hu (by decide)
  · exact absurd hu (by decide)
  · exact h

/-- A comment has begun, and its dashes may end it. -/
theorem Safe.opened (h : ¬ Hides (unit '<' :: unit '!' :: unit '-' :: unit '-' :: us)) :
    Safe (.comment 2) us := by
  have hopens : Heads .opens (unit '<' :: unit '!' :: unit '-' :: unit '-' :: us) :=
    ⟨_, rfl, us, rfl⟩
  have hreach : ¬ Reaches (unit '!' :: unit '-' :: unit '-' :: us) := fun hreach =>
    h (hides_cons.mpr (.inl ⟨hopens, hreach⟩))
  refine .comment (Nat.le_refl 2) ?_ (not_reaches_tail hreach (not_closes_of_ne (by decide)))
  exact not_hides_tail (not_hides_tail (not_hides_tail (not_hides_tail h)))

/-- A name goes on, or ends; it is not the one at which a script would begin. -/
theorem Safe.inName {name : List UInt16} (letters : ∀ v ∈ name, State.isLetter v = true)
    (h : ¬ Hides (u :: us)) (reach : ¬ Reaches (unit '<' :: name ++ u :: us))
    (hu : 32 ≤ u.toNat) (hclosed : ¬ unitsOf "</" <+: u :: us) :
    Safe ((State.nestName name).step u) us := by
  have hdash : ∀ v ∈ unit '<' :: name, v ≠ unit '-' := by
    rw [List.forall_mem_cons]
    refine ⟨by decide, ?_⟩
    rintro v hv rfl
    exact absurd (letters _ hv) (by decide)
  have hrest := not_reaches_append hdash reach
  rw [State.step]
  by_cases hstop : State.isStop u = true
  · rw [if_pos hstop]
    by_cases hscript : State.isScript name = true
    · refine absurd (reaches_cons.mpr (.inl ⟨unit '<' :: name ++ [u], ?_, ?_⟩)) reach
      · exact ⟨name, u, rfl, beq_iff_eq.mp hscript, mem_stops_of_isStop hstop hu⟩
      · exact ⟨us, by simp⟩
    · rw [if_neg hscript]
      refine .comment (Nat.zero_le 2) (not_hides_tail h) ?_
      refine not_reaches_tail hrest (not_closes_of_ne ?_)
      rintro rfl
      exact absurd hstop (by decide)
  rw [if_neg hstop]
  by_cases hletter : State.isLetter u = true
  · rw [if_pos hletter]
    refine .nestName ?_ (not_hides_tail h) (by simpa using reach)
    intro v hv
    rcases List.mem_append.mp hv with hv | hv
    · exact letters v hv
    · rw [List.mem_singleton.mp hv]
      exact hletter
  · rw [if_neg hletter]
    exact .inComment (Nat.zero_le 2) h hrest hclosed

/-- **Reading a unit stays safe.** -/
theorem Safe.step (hs : Safe s (u :: us)) (hu : 32 ≤ u.toNat)
    (hclosed : ¬ unitsOf "</" <+: u :: us) : Safe (s.step u) us := by
  cases hs with
  | data h => exact .inData h hclosed
  | less h closed =>
    have hslash : u ≠ unit '/' := by
      rintro rfl
      exact closed rfl
    rw [State.step, if_neg hslash]
    split
    · rename_i hbang
      subst hbang
      exact .bang h
    · exact .inData (not_hides_tail h) hclosed
  | bang h =>
    rw [State.step]
    split
    · rename_i hdash
      subst hdash
      exact .bangDash h
    · exact .inData (not_hides_tail (not_hides_tail h)) hclosed
  | bangDash h =>
    rw [State.step]
    split
    · rename_i hdash
      subst hdash
      exact .opened h
    · exact .inData (not_hides_tail (not_hides_tail (not_hides_tail h))) hclosed
  | comment few h reach => exact .inComment few h reach hclosed
  | commentLess h reach closed =>
    have hslash : u ≠ unit '/' := by
      rintro rfl
      exact closed rfl
    rw [State.step, if_neg hslash]
    split
    · rename_i hletter
      refine .nestName ?_ (not_hides_tail h) reach
      rwa [List.forall_mem_singleton]
    · refine .inComment (Nat.zero_le 2) h ?_ hclosed
      exact not_reaches_tail reach (not_closes_of_ne (by decide))
  | nestName letters h reach => exact .inName letters h reach hu hclosed

/-- **Reading units stays safe.** -/
theorem Safe.run (hs : Safe s us) (hus : ∀ u ∈ us, 32 ≤ u.toNat)
    (hclosed : ¬ unitsOf "</" <:+: us) : Safe (s.run us) [] := by
  induction us generalizing s with
  | nil => exact hs
  | cons u us ih =>
    rw [List.forall_mem_cons] at hus
    rw [List.infix_cons_iff, not_or] at hclosed
    exact ih (hs.step hus.1 hclosed.1) hus.2 hclosed.2

/-- Where nothing is hidden, a closing tag ends the element. -/
theorem Safe.closes (hs : Safe s []) :
    s.run (unitsOf "</script") ≠ .ended ∧ s.run (unitsOf "</script>") = .ended := by
  cases hs with
  | data | less | bang | bangDash | commentLess => decide
  | @comment _ dashes few =>
    have hcases : dashes = 0 ∨ dashes = 1 ∨ dashes = 2 := by omega
    rcases hcases with rfl | rfl | rfl <;> decide
  | nestName =>
    constructor
    · exact nofun
    · rfl

/-- **A script in which no other one begins ends at the tag behind it.** -/
theorem closes_of_not_hides (h : ¬ Hides us) (hus : ∀ u ∈ us, 32 ≤ u.toNat)
    (hclosed : ¬ unitsOf "</" <:+: us) : Closes us := by
  unfold Closes State.run
  rw [List.foldl_append, List.foldl_append]
  exact ((Safe.data h).run hus hclosed).closes

end Honeycomb.Script
