import Honeycomb.Proofs.Html.Tokenizer
import Honeycomb.Proofs.Json.Inline

/-!
# A value inside a script element

* `Json.texts` — the keys and texts of a value, in the order in which they are written.
* `Script.Agree.quoted` — the escapes of a text hide nothing and show nothing.
* `Json.agree_units`, `Json.agree_guardClosers` — neither do marks, numbers and guards.
* `Json.printed_units` — no unit of a value is a control.
* `Json.inline_in_script` — what a value inside a script element hides is what its keys and texts
  hide; if they hide nothing, the closing tag behind the value ends the element.
-/

set_option autoImplicit false

namespace Honeycomb

open Text (unit unitsOf)

namespace Script

variable {us vs : List UInt16} {u : UInt16}

/-! ## Texts in quotes -/

open Json (escaped escapeChar escapeLetter quoted)
open Text (Letter unitsOfChar)

theorem wall_of_toNat (h : u.toNat < 32 ∨ 127 < u.toNat) : Wall u := by
  have hlower : lower u = u := by
    rw [lower, if_neg]
    rintro ⟨h65, h90⟩
    rw [UInt16.le_iff_toNat_le] at h65 h90
    change 65 ≤ u.toNat at h65
    change u.toNat ≤ 90 at h90
    omega
  have hmarks : ∀ v ∈ unitsOf "<!-->script /", 32 ≤ v.toNat ∧ v.toNat ≤ 127 :=
    forall_mem_of_all (by decide)
  intro hmem
  rw [hlower] at hmem
  have := hmarks u hmem
  omega

theorem hexDigit_ne : ∀ n < 16, Json.hexDigit n ≠ unit '<' ∧ Json.hexDigit n ≠ unit '-' := by decide

/-- What stands behind the backslash of an escape begins no mark. -/
def Escape (us : List UInt16) : Prop :=
  ∃ code, us = unit '\\' :: code ∧ ∀ u ∈ code, u ≠ unit '<' ∧ u ≠ unit '-'

theorem escape_escaped (u : UInt16) : Escape (escaped u) := by
  have hlt := u.toNat_lt
  refine ⟨_, rfl, ?_⟩
  simp only [List.forall_mem_cons, List.not_mem_nil, false_implies, implies_true, and_true]
  exact ⟨by decide, hexDigit_ne _ (by omega), hexDigit_ne _ (by omega), hexDigit_ne _ (by omega),
    hexDigit_ne _ (by omega)⟩

/-- An escape stands for a single unit, which is in no mark either. -/
theorem Alike.escape {ws : List UInt16} (hws : Escape ws) (hu : Wall u) (h : Alike us vs) :
    Alike (ws ++ us) (u :: vs) := by
  obtain ⟨code, rfl, hcode⟩ := hws
  have hslash : Wall (unit '\\') := by decide
  have hagree : Agree (code ++ us) (u :: vs) := (h.toAgree.wall_right hu).append_left hcode
  exact .of_sealed (hagree.wall_left hslash) (sealed_cons hslash _) (sealed_cons hu _)

theorem escape_of_hasLetter {c : Char} (h : Json.HasLetter c) :
    Escape (escapeChar c) ∧ unitsOfChar c = [unit c] ∧ Wall (unit c) := by
  obtain ⟨e, hc, -, he, hunits⟩ := Json.escapeChar_of_hasLetter h
  refine ⟨⟨[e], hc, ?_⟩, hunits, ?_⟩
  · rw [List.forall_mem_singleton]
    constructor
    · rintro rfl
      cases he
    · rintro rfl
      cases he
  · have hback : c = Char.ofNat c.toNat := (Char.ofNat_toNat c).symm
    rcases h with rfl | rfl | h | rfl | rfl | h | rfl
    case inr.inr.inl | inr.inr.inr.inr.inr.inl =>
      rw [hback, h]
      decide
    all_goals decide

/-- **A letter is alike, however it is escaped.** -/
theorem Alike.letter {l : Letter} (hl : ∀ u, l = .lone u → 0xD800 ≤ u.toNat) (h : Alike us vs) :
    Alike (escapeLetter l ++ us) (l.units ++ vs) := by
  cases l with
  | lone u => exact h.escape (escape_escaped u) (wall_of_toNat (.inr (by have := hl u rfl; omega)))
  | char c =>
    show Alike (escapeChar c ++ us) (unitsOfChar c ++ vs)
    rcases Json.escapeChar_cases c with hletter | ⟨hc, hunits, hcontrol⟩ | ⟨hc, -⟩
    · obtain ⟨hescape, hunits, hwall⟩ := escape_of_hasLetter hletter
      rw [hunits]
      exact h.escape hescape hwall
    · rw [hc, hunits]
      refine h.escape (escape_escaped _) (wall_of_toNat (.inl ?_))
      show (UInt16.ofNat c.toNat).toNat < 32
      rw [UInt16.toNat_ofNat']
      omega
    · rw [hc]
      exact h.append _

theorem Alike.letters {ls : List Letter} (hls : ∀ u, .lone u ∈ ls → 0xD800 ≤ u.toNat)
    (h : Alike us vs) : Alike (ls.flatMap escapeLetter ++ us) (ls.flatMap Letter.units ++ vs) := by
  induction ls with
  | nil => exact h
  | cons l ls ih =>
    rw [List.flatMap_cons, List.flatMap_cons, List.append_assoc, List.append_assoc]
    refine (ih fun u hu => hls u (List.mem_cons_of_mem l hu)).letter ?_
    rintro u rfl
    exact hls u List.mem_cons_self

/-- A text between quotes, as it is. -/
def inQuotes (t : Text) : List UInt16 := unit '"' :: t.units ++ [unit '"']

/-- **A text in quotes hides what it hides without its escapes.** -/
theorem Agree.quoted (t : Text) (h : Agree us vs) :
    Agree (Json.quoted t ++ us) (inQuotes t ++ vs) := by
  have hquote : Wall (unit '"') := by decide
  have hclose : Alike (unit '"' :: us) (unit '"' :: vs) :=
    .of_sealed ((h.wall_right hquote).wall_left hquote) (sealed_cons hquote _)
      (sealed_cons hquote _)
  have hletters := hclose.letters fun u hu => Text.surrogate_of_lone (t := t) hu
  rw [Text.flatMap_units_letters] at hletters
  have hopen := hletters.cons (unit '"')
  simpa [Json.quoted, inQuotes] using hopen.toAgree

end Script

/-! ## Values -/

namespace Json

open Script
open Text (Letter unitsOfChar)

mutual

/-- The keys and texts of a value, in the order in which they are written. -/
def texts : Json → List Text
  | .text t => [t]
  | .array items => itemTexts items
  | .object members => memberTexts members
  | _ => []

def itemTexts : List Json → List Text
  | [] => []
  | v :: rest => texts v ++ itemTexts rest

def memberTexts : List (Text × Json) → List Text
  | [] => []
  | (key, v) :: rest => key :: (texts v ++ memberTexts rest)

end

theorem sealed_texts (ts : List Text) {rest : List UInt16} (hrest : Sealed rest) :
    Sealed (ts.flatMap inQuotes ++ rest) := by
  cases ts with
  | nil => exact hrest
  | cons t ts => exact sealed_cons (by decide) _

/-- The units of a number, or of the word that stands for it. -/
theorem mem_numberToken {x : Float} {u : UInt16} (hu : u ∈ numberToken x) :
    Digits.isDigit u = true ∨ u ∈ unitsOf ".e+-null" := by
  have hmarks : ∀ v ∈ [unit '.', unit 'e', unit '+', unit '-'], v ∈ unitsOf ".e+-null" :=
    forall_mem_of_all (by decide)
  have hnull : ∀ v ∈ unitsOf "null", v ∈ unitsOf ".e+-null" := forall_mem_of_all (by decide)
  unfold numberToken at hu
  split at hu
  · rename_i hfinite
    exact (mem_numberUnits hfinite hu).imp_right (hmarks u)
  · exact .inr (hnull u hu)

/-- A number has no brackets. -/
theorem ne_bracket_of_mem_numberToken {x : Float} {u : UInt16} (hu : u ∈ numberToken x) :
    u ≠ unit '<' ∧ u ≠ unit '>' := by
  constructor
  · rintro rfl
    exact absurd (mem_numberToken hu) (by decide)
  · rintro rfl
    exact absurd (mem_numberToken hu) (by decide)

mutual

/-- **A value hides what its keys and texts hide**, whatever stands behind it. -/
theorem agree_units (v : Json) {rest rest' : List UInt16} (hrest : Sealed rest)
    (hrest' : Sealed rest') (h : Agree rest rest') :
    Agree (units v ++ rest) ((texts v).flatMap inQuotes ++ rest') := by
  cases v with
  | null => exact h.append_left (forall_mem_of_all (by decide))
  | bool b =>
    cases b with
    | true => exact h.append_left (forall_mem_of_all (by decide))
    | false => exact h.append_left (forall_mem_of_all (by decide))
  | number x => exact h.append_sealed (fun _ => ne_bracket_of_mem_numberToken) hrest
  | text t =>
    rw [units, texts, List.flatMap_singleton]
    exact h.quoted t
  | array items =>
    have hclose : Wall (unit ']') := by decide
    have hitems := agree_itemUnits items (sealed_cons hclose rest) hrest' (h.wall_left hclose)
    rw [units, texts, List.append_assoc]
    exact hitems.wall_left (by decide)
  | object members =>
    have hclose : Wall (unit '\x7d') := by decide
    have hmembers :=
      agree_memberUnits members (sealed_cons hclose rest) hrest' (h.wall_left hclose)
    rw [units, texts, List.append_assoc]
    exact hmembers.wall_left (by decide)

theorem agree_itemUnits (items : List Json) {rest rest' : List UInt16} (hrest : Sealed rest)
    (hrest' : Sealed rest') (h : Agree rest rest') :
    Agree (itemUnits items ++ rest) ((itemTexts items).flatMap inQuotes ++ rest') := by
  have hcomma : Wall (unit ',') := by decide
  match items with
  | [] => exact h
  | [v] =>
    rw [itemUnits, itemTexts, itemTexts, List.append_nil]
    exact agree_units v hrest hrest' h
  | v :: w :: more =>
    have hmore := agree_itemUnits (w :: more) hrest hrest' h
    have hhead := agree_units v (sealed_cons hcomma _) (sealed_texts _ hrest')
      (hmore.wall_left hcomma)
    rw [itemUnits_cons_cons, itemTexts, List.flatMap_append, List.append_assoc, List.append_assoc]
    exact hhead

theorem agree_memberUnits (members : List (Text × Json)) {rest rest' : List UInt16}
    (hrest : Sealed rest) (hrest' : Sealed rest') (h : Agree rest rest') :
    Agree (memberUnits members ++ rest) ((memberTexts members).flatMap inQuotes ++ rest') := by
  have hcomma : Wall (unit ',') := by decide
  have hcolon : Wall (unit ':') := by decide
  match members with
  | [] => exact h
  | [(key, v)] =>
    have hvalue := agree_units v hrest hrest' h
    rw [memberUnits, memberTexts, memberTexts, List.append_nil, List.flatMap_cons,
      List.append_assoc, List.append_assoc]
    exact (hvalue.wall_left hcolon).quoted key
  | (key, v) :: m :: more =>
    have hmore := agree_memberUnits (m :: more) hrest hrest' h
    have hvalue := agree_units v (sealed_cons hcomma _) (sealed_texts _ hrest')
      (hmore.wall_left hcomma)
    rw [memberUnits_cons_cons, memberTexts, List.flatMap_cons, List.flatMap_append]
    simp only [List.append_assoc, List.cons_append]
    exact (hvalue.wall_left hcolon).quoted key

end

/-! ## Guards -/

theorem prefix_guardClosers_iff {spelled us : List UInt16} (hslash : unit '\\' ∉ spelled)
    (hcloser : ¬ unitsOf "</" <:+: spelled) :
    spelled <+: guardClosers us ↔ spelled <+: us := by
  induction spelled generalizing us with
  | nil => simp
  | cons s spelled ih =>
    rw [List.mem_cons, not_or] at hslash
    rw [List.infix_cons_iff, not_or] at hcloser
    cases us with
    | nil => rfl
    | cons u us =>
      rcases guardClosers_cons u us with ⟨hcons, -⟩ | ⟨rest, rfl, rfl, hcons⟩
      · rw [hcons, List.cons_prefix_cons, List.cons_prefix_cons, ih hslash.2 hcloser.2]
      · -- no spelling goes on behind the bracket, guarded or not
        rw [hcons, List.cons_prefix_cons, List.cons_prefix_cons]
        refine and_congr_right fun hs => ?_
        cases spelled with
        | nil => simp
        | cons v spelled =>
          rw [List.mem_cons, not_or] at hslash
          rw [List.cons_prefix_cons, List.cons_prefix_cons]
          refine iff_of_false (fun h => hslash.2.1 h.1.symm) ?_
          rintro ⟨rfl, -⟩
          refine hcloser.1 ?_
          rw [hs]
          exact ⟨spelled, rfl⟩

/-- No mark holds what a guard keeps apart. -/
theorem not_infix_of_spells {mark : Mark} {spelled : List UInt16} (h : mark.Spells spelled) :
    ¬ unitsOf "</" <:+: spelled := by
  cases mark with
  | opens | closes =>
    obtain rfl := h
    decide
  | nests =>
    obtain ⟨name, stop, rfl, hname, hstop⟩ := h
    have hcloser : unitsOf "</" = [unit '<', unit '/'] := by decide
    rw [hcloser, List.cons_append, List.infix_cons_iff, List.cons_prefix_cons]
    rintro (⟨-, hslash⟩ | hless)
    · cases name with
      | nil => cases hname
      | cons n name =>
        obtain rfl := (List.cons_prefix_cons.mp hslash).1
        cases hname
    · rcases List.mem_append.mp (hless.subset List.mem_cons_self) with hmem | hmem
      · have hlower : lower (unit '<') ∈ unitsOf "script" := hname ▸ List.mem_map_of_mem hmem
        exact absurd hlower (by decide)
      · obtain rfl := List.mem_singleton.mp hmem
        exact absurd hstop (by decide)

theorem heads_guardClosers (mark : Mark) (us : List UInt16) :
    Heads mark (guardClosers us) ↔ Heads mark us := by
  refine heads_congr fun spelled hspells => ?_
  refine prefix_guardClosers_iff (fun hslash => ?_) (not_infix_of_spells hspells)
  exact not_wall_of_spells hspells hslash (by decide)

/-- **Guards hide nothing and show nothing.** -/
theorem agree_guardClosers (us : List UInt16) : Agree (guardClosers us) us := by
  induction us with
  | nil => exact .refl []
  | cons u us ih =>
    have hheads := fun mark => heads_guardClosers mark (u :: us)
    rcases guardClosers_cons u us with ⟨hcons, -⟩ | ⟨rest, rfl, rfl, hcons⟩
    · rw [hcons] at hheads ⊢
      exact ih.cons hheads
    · rw [hcons] at hheads ⊢
      rw [guardClosers_of_ne (by decide)] at ih
      have hslash : Wall (unit '\\') := by decide
      exact (ih.wall_left hslash).cons hheads

/-! ## Controls -/

/-- Units among which there are no controls. -/
def Printed (us : List UInt16) : Prop := ∀ u ∈ us, 32 ≤ u.toNat

instance (us : List UInt16) : Decidable (Printed us) :=
  List.decidableBAll _ us

@[simp] theorem printed_nil : Printed [] := by simp [Printed]

@[simp] theorem printed_cons {u : UInt16} {us : List UInt16} :
    Printed (u :: us) ↔ 32 ≤ u.toNat ∧ Printed us := by simp [Printed]

@[simp] theorem printed_append {us vs : List UInt16} :
    Printed (us ++ vs) ↔ Printed us ∧ Printed vs := by
  simp only [Printed, List.forall_mem_append]

theorem printed_hexDigit : ∀ n < 16, 32 ≤ (hexDigit n).toNat := by decide

theorem printed_escaped (u : UInt16) : Printed (escaped u) := by
  have hlt := u.toNat_lt
  simp only [escaped, printed_cons, printed_nil, and_true]
  exact ⟨by decide, by decide, printed_hexDigit _ (by omega), printed_hexDigit _ (by omega),
    printed_hexDigit _ (by omega), printed_hexDigit _ (by omega)⟩

theorem printed_unitsOfChar {c : Char} (hc : 32 ≤ c.toNat) : Printed (unitsOfChar c) := by
  have hmax := Text.toNat_lt_of_char c
  unfold unitsOfChar
  dsimp only
  split
  · simp only [printed_cons, printed_nil, and_true, UInt16.toNat_ofNat']
    omega
  · simp only [printed_cons, printed_nil, and_true, UInt16.toNat_ofNat']
    omega

/-- A letter that stands for a character behind a backslash is no control. -/
theorem printed_of_shortEscape {e u : UInt16} (h : shortEscape? e = some u) : 32 ≤ e.toNat := by
  have hnone : ∀ n < 32, shortEscape? (UInt16.ofNat n) = none := by decide
  by_contra hlt
  have he := hnone e.toNat (by omega)
  rw [UInt16.ofNat_toNat, h] at he
  cases he

theorem printed_escapeLetter (l : Letter) : Printed (escapeLetter l) := by
  cases l with
  | lone u => exact printed_escaped u
  | char c =>
    show Printed (escapeChar c)
    rcases escapeChar_cases c with hletter | ⟨hc, -⟩ | ⟨hc, -, -, hplain⟩
    · obtain ⟨e, hc, -, he, -⟩ := escapeChar_of_hasLetter hletter
      rw [hc, printed_cons, printed_cons]
      exact ⟨by decide, printed_of_shortEscape he, printed_nil⟩
    · rw [hc]
      exact printed_escaped _
    · rw [hc]
      exact printed_unitsOfChar hplain

@[simp] theorem printed_quoted (t : Text) : Printed (quoted t) := by
  have hletters : Printed (t.letters.flatMap escapeLetter) := by
    intro u hu
    obtain ⟨l, -, hu⟩ := List.mem_flatMap.mp hu
    exact printed_escapeLetter l u hu
  simp +decide [quoted, hletters]

theorem printed_numberToken (x : Float) : Printed (numberToken x) := by
  intro u hu
  rcases mem_numberToken hu with hdigit | hmark
  · simp only [Digits.isDigit, Bool.and_eq_true, decide_eq_true_eq, UInt16.le_iff_toNat_le]
      at hdigit
    have h48 : 48 ≤ u.toNat := hdigit.1
    omega
  · have hmarks : Printed (unitsOf ".e+-null") := by decide
    exact hmarks u hmark

mutual

/-- **No unit of a value is a control.** -/
theorem printed_units (v : Json) : Printed (units v) := by
  cases v with
  | null => decide
  | bool b => cases b <;> decide
  | number x => exact printed_numberToken x
  | text t => exact printed_quoted t
  | array items =>
    have hitems := printed_itemUnits items
    simp +decide [units, hitems]
  | object members =>
    have hmembers := printed_memberUnits members
    simp +decide [units, hmembers]

theorem printed_itemUnits (items : List Json) : Printed (itemUnits items) := by
  match items with
  | [] => exact printed_nil
  | [v] => exact printed_units v
  | v :: w :: more =>
    have hhead := printed_units v
    have hmore := printed_itemUnits (w :: more)
    simp +decide [itemUnits_cons_cons, hhead, hmore]

theorem printed_memberUnits (members : List (Text × Json)) : Printed (memberUnits members) := by
  match members with
  | [] => exact printed_nil
  | [(key, v)] =>
    have hvalue := printed_units v
    simp +decide [memberUnits, hvalue]
  | (key, v) :: m :: more =>
    have hvalue := printed_units v
    have hmore := printed_memberUnits (m :: more)
    simp +decide [memberUnits_cons_cons, hvalue, hmore]

end

theorem printed_guardClosers {us : List UInt16} (hus : Printed us) : Printed (guardClosers us) := by
  induction us with
  | nil => exact printed_nil
  | cons u us ih =>
    rw [printed_cons] at hus
    rcases guardClosers_cons u us with ⟨hcons, -⟩ | ⟨rest, rfl, rfl, hcons⟩
    · rw [hcons, printed_cons]
      exact ⟨hus.1, ih hus.2⟩
    · have hrest := ih hus.2
      rw [guardClosers_of_ne (by decide)] at hrest
      rw [hcons, printed_cons, printed_cons]
      exact ⟨by decide, by decide, hrest⟩

/-! ## Values inside a script element -/

theorem hides_inline (v : Json) : Hides v.inline.units ↔ Hides (v.texts.flatMap inQuotes) := by
  have hunits := agree_units v sealed_nil sealed_nil (.refl [])
  rw [List.append_nil, List.append_nil] at hunits
  exact (agree_guardClosers (units v)).hides.trans hunits.hides

theorem closes_inline {v : Json} (h : ¬ Hides v.inline.units) : Closes v.inline.units :=
  closes_of_not_hides h (printed_guardClosers (printed_units v)) (not_infix_guardClosers (units v))

/-- **A value inside a script element hides the end of it exactly if its keys and texts do**, in the
order in which they are written; if they do not, the closing tag behind the value ends it. -/
theorem inline_in_script (v : Json) :
    (Hides v.inline.units ↔ Hides (v.texts.flatMap inQuotes)) ∧
      (Hides v.inline.units ∨ Closes v.inline.units) :=
  ⟨hides_inline v, or_iff_not_imp_left.mpr closes_inline⟩

/-- A text hides the end of the script element that it stands in: the closing tag behind it does
not end the element. -/
theorem nested_text_hides :
    (Json.text "<!--<script>").inline = "\"<!--<script>\"" ∧
      Hides (Json.text "<!--<script>").inline.units ∧
      ¬ Closes (Json.text "<!--<script>").inline.units ∧
      ¬ ∀ v : Json, ¬ Hides v.inline.units := by
  have hinline : (Json.text "<!--<script>").inline = "\"<!--<script>\"" := by decide
  have hcloses : ¬ Closes (Json.text "<!--<script>").inline.units := by
    rw [hinline]
    exact fun h => absurd h.2 (by decide)
  have hhides : Hides (Json.text "<!--<script>").inline.units := by
    by_contra h
    exact hcloses (closes_inline h)
  exact ⟨hinline, hhides, hcloses, fun h => h _ hhides⟩

end Json

end Honeycomb
