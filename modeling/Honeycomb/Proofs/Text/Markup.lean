import Mathlib.Data.List.Infix
import Honeycomb.Proofs.Text.Letters
import Honeycomb.Text.Markup

/-!
# What a reader of markup sees

* `Quiet` — a text that neither opens nor closes a tag or a value.
* `escapeUnit_cases` — every unit of an escaped text is a quiet one that stands for itself, or is
  written as one of five references.
* `standsFor_escape` — an escaped text is quiet, has ampersands only where references start, and is
  the text again once they are read (`decode?_escape`), so that no two texts are escaped alike.
* `escape_eq_replaceInTurn` — the five replacements can be made one after the other, the ampersand
  first.
* `State.read` — a reader that tells the units of tags from what stands between them and in their
  values; `read_tokens` says that it finds the tokens that were written.
* `occurrences_tokens` — a tag that is opened with attributes is found as often as it was written,
  and in no text or value.
-/

set_option autoImplicit false

namespace Honeycomb.Text.Markup

/-! ## Quiet texts -/

/-- A unit that opens and closes neither tags nor values. -/
def QuietUnit (u : UInt16) : Prop :=
  u ≠ unit '<' ∧ u ≠ unit '>' ∧ u ≠ unit '"' ∧ u ≠ unit '\''

instance (u : UInt16) : Decidable (QuietUnit u) := inferInstanceAs (Decidable (_ ∧ _))

/-- A text of such units. -/
def Quiet (t : Text) : Prop := ∀ u ∈ t.units, QuietUnit u

instance (t : Text) : Decidable (Quiet t) := List.decidableBAll _ _

variable {s t : Text}

theorem Quiet.append (hs : Quiet s) (ht : Quiet t) : Quiet (s ++ t) :=
  List.forall_mem_append.mpr ⟨hs, ht⟩

theorem Quiet.intercalate {ts : List Text} (ht : Quiet t) (hts : ∀ s ∈ ts, Quiet s) :
    Quiet (Text.intercalate t ts) := by
  cases ts with
  | nil => exact nofun
  | cons s ts =>
    obtain ⟨hs, hts⟩ := List.forall_mem_cons.mp hts
    rw [intercalate_cons]
    refine hs.append fun u hu => ?_
    obtain ⟨s', hs', hu⟩ := List.mem_flatMap.mp hu
    obtain ⟨r, hr, rfl⟩ := List.mem_map.mp hs'
    exact ht.append (hts r hr) u hu

/-! ## References -/

/-- The names of the references, and what they stand for. -/
def entities : List (Text × UInt16) :=
  [(.ofString "amp", unit '&'), ("lt", unit '<'), ("gt", unit '>'), ("quot", unit '"'),
    ("apos", unit '\'')]

/-- A name between an ampersand and a semicolon. -/
def reference (name : Text) : List UInt16 := unit '&' :: (name.units ++ [unit ';'])

/-- **A unit is escaped to a reference for it, or stands for itself.** -/
theorem escapeUnit_cases (u : UInt16) :
    (∃ e ∈ entities, e.2 = u ∧ escapeUnit u = reference e.1) ∨
      (u ∉ entities.map (·.2) ∧ escapeUnit u = [u]) := by
  have hsome : ∀ e ∈ entities, escapeUnit e.2 = reference e.1 := by decide
  by_cases hspecial : u ∈ entities.map (·.2)
  · obtain ⟨e, he, rfl⟩ := List.mem_map.mp hspecial
    exact .inl ⟨e, he, rfl, hsome e he⟩
  · refine .inr ⟨hspecial, ?_⟩
    simp only [entities, List.map_cons, List.map_nil, List.mem_cons, List.not_mem_nil, or_false,
      not_or] at hspecial
    obtain ⟨hamp, hless, hgreater, hquote, hapostrophe⟩ := hspecial
    rw [escapeUnit, if_neg hamp, if_neg hless, if_neg hgreater, if_neg hquote, if_neg hapostrophe]

/-- What has no reference is no ampersand, and quiet. -/
theorem quiet_of_notMem_entities {u : UInt16} (hu : u ∉ entities.map (·.2)) :
    u ≠ unit '&' ∧ QuietUnit u := by
  simp only [entities, List.map_cons, List.map_nil, List.mem_cons, List.not_mem_nil, or_false,
    not_or] at hu
  exact hu

/-- **An escaped text is quiet.** -/
theorem quiet_escape (t : Text) : Quiet (escape t) := by
  have hreference : ∀ e ∈ entities, Quiet ⟨reference e.1⟩ := by decide
  intro v hv
  obtain ⟨u, -, hv⟩ := List.mem_flatMap.mp hv
  rcases escapeUnit_cases u with ⟨e, he, -, hu⟩ | ⟨hnone, hu⟩
  · exact hreference e he v (hu ▸ hv)
  · obtain rfl := List.mem_singleton.mp (hu ▸ hv)
    exact (quiet_of_notMem_entities hnone).2

/-- **Every ampersand of an escaped text starts a reference.** -/
theorem starts_reference {before after : List UInt16}
    (h : (escape t).units = before ++ unit '&' :: after) :
    ∃ e ∈ entities, reference e.1 <+: unit '&' :: after := by
  change t.units.flatMap escapeUnit = _ at h
  generalize t.units = units at h
  induction units generalizing before with
  | nil => cases before <;> cases h
  | cons u us ih =>
    rw [List.flatMap_cons] at h
    rcases List.append_eq_append_iff.mp h with ⟨more, -, hmore⟩ | ⟨more, hu, hmore⟩
    · exact ih hmore
    · cases more with
      | nil => exact ih (show us.flatMap escapeUnit = [] ++ _ from hmore.symm)
      | cons v more =>
        obtain ⟨rfl, rfl⟩ := List.cons.inj hmore
        rcases escapeUnit_cases u with ⟨e, he, -, hreference⟩ | ⟨hnone, hself⟩
        · -- a reference has no ampersand but the first
          have honce : ∀ e ∈ entities, unit '&' ∉ e.1.units ++ [unit ';'] := by decide
          rw [hu] at hreference
          cases before with
          | nil => exact ⟨e, he, hreference ▸ List.prefix_append _ _⟩
          | cons w before =>
            have htail := (List.cons.inj hreference).2
            refine absurd ?_ (honce e he)
            rw [← htail]
            exact List.mem_append_right before List.mem_cons_self
        · have hmem : unit '&' ∈ [u] := by
            rw [← hself, hu]
            exact List.mem_append_right before List.mem_cons_self
          exact absurd (List.mem_singleton.mp hmem).symm (quiet_of_notMem_entities hnone).1

/-! ## Reading references -/

/-- What a reference stands for. -/
def entity? (name : List UInt16) : Option UInt16 :=
  (entities.find? (·.1.units == name)).map (·.2)

/-- Reads units with references in them, possibly inside of one, of which some units are read.  An
ampersand that starts no reference is refused. -/
def decodeFrom : Option (List UInt16) → List UInt16 → Option (List UInt16)
  | none, [] => some []
  | some _, [] => none
  | none, u :: us =>
    if u = unit '&' then decodeFrom (some []) us else (decodeFrom none us).map (u :: ·)
  | some name, u :: us =>
    if u = unit ';' then do
      let v ← entity? name
      (decodeFrom none us).map (v :: ·)
    else decodeFrom (some (name ++ [u])) us

/-- The text that a text with references in it stands for. -/
def decode? (t : Text) : Option Text := (decodeFrom none t.units).map Text.mk

theorem decodeFrom_name {us : List UInt16} (hus : unit ';' ∉ us) (name rest : List UInt16) :
    decodeFrom (some name) (us ++ rest) = decodeFrom (some (name ++ us)) rest := by
  induction us generalizing name with
  | nil => rw [List.append_nil, List.nil_append]
  | cons u us ih =>
    rw [List.mem_cons, not_or] at hus
    obtain ⟨hu, hus⟩ := hus
    rw [List.cons_append, decodeFrom, if_neg (Ne.symm hu), ih hus, List.append_assoc,
      List.singleton_append]

theorem decodeFrom_reference {e : Text × UInt16} (he : e ∈ entities) (rest : List UInt16) :
    decodeFrom none (reference e.1 ++ rest) = (decodeFrom none rest).map (e.2 :: ·) := by
  have hentity : ∀ e ∈ entities, unit ';' ∉ e.1.units ∧ entity? e.1.units = some e.2 := by decide
  obtain ⟨hname, hstands⟩ := hentity e he
  rw [reference, List.cons_append, decodeFrom, if_pos rfl, List.append_assoc,
    decodeFrom_name hname, List.nil_append, List.singleton_append, decodeFrom, if_pos rfl, hstands]
  rfl

/-- **Escaping is undone by reading the references.** -/
theorem decode?_escape (t : Text) : decode? (escape t) = some t := by
  have hunits : decodeFrom none (t.units.flatMap escapeUnit) = some t.units := by
    induction t.units with
    | nil => rfl
    | cons u us ih =>
      rw [List.flatMap_cons]
      rcases escapeUnit_cases u with ⟨e, he, rfl, hu⟩ | ⟨hnone, hu⟩
      · rw [hu, decodeFrom_reference he, ih, Option.map_some]
      · rw [hu, List.singleton_append, decodeFrom, if_neg (quiet_of_notMem_entities hnone).1, ih,
          Option.map_some]
  rw [decode?, escape, hunits, Option.map_some]

/-- A text stands for another one between tags and in values: it is quiet, each of its ampersands
starts a reference, and with the references read it is the other text. -/
structure StandsFor (s t : Text) : Prop where
  quiet : Quiet s
  references : ∀ before after, s.units = before ++ unit '&' :: after →
    ∃ e ∈ entities, reference e.1 <+: unit '&' :: after
  decoded : decode? s = some t

theorem standsFor_escape (t : Text) : StandsFor (escape t) t :=
  ⟨quiet_escape t, fun _ _ => starts_reference, decode?_escape t⟩

example : escape "a<b>&\"c\"" = "a&lt;b&gt;&amp;&quot;c&quot;" := by decide

/-- No two texts are escaped alike. -/
theorem escape_injective : Function.Injective escape := by
  intro s t h
  have hdecode := (standsFor_escape s).decoded
  rw [h, (standsFor_escape t).decoded] at hdecode
  exact (Option.some.inj hdecode).symm

/-! ## One replacement after the other -/

/-- Units with one of them replaced wherever it stands. -/
def replaceEach (old : UInt16) (new us : List UInt16) : List UInt16 :=
  us.flatMap fun u => if u = old then new else [u]

/-- Units with each of some replaced by its reference, one after the other. -/
def replaceInTurn (es : List (Text × UInt16)) (us : List UInt16) : List UInt16 :=
  es.foldl (fun us e => replaceEach e.2 (reference e.1) us) us

theorem replaceInTurn_append (es : List (Text × UInt16)) (us vs : List UInt16) :
    replaceInTurn es (us ++ vs) = replaceInTurn es us ++ replaceInTurn es vs := by
  induction es generalizing us vs with
  | nil => rfl
  | cons e es ih =>
    show replaceInTurn es (replaceEach _ _ (us ++ vs)) = _
    rw [replaceEach, List.flatMap_append, ih]
    rfl

theorem replaceInTurn_of_notMem {es : List (Text × UInt16)} {u : UInt16}
    (hu : u ∉ es.map (·.2)) : replaceInTurn es [u] = [u] := by
  induction es with
  | nil => rfl
  | cons e es ih =>
    rw [List.map_cons, List.mem_cons, not_or] at hu
    show replaceInTurn es (replaceEach _ _ [u]) = _
    rw [replaceEach, List.flatMap_singleton, if_neg hu.1, ih hu.2]

/-- **The units can be replaced one after the other, the ampersand first**: no reference that is put
in holds a unit that is replaced later. -/
theorem escape_eq_replaceInTurn (t : Text) :
    (escape t).units = replaceInTurn entities t.units := by
  have hspecial : ∀ e ∈ entities, replaceInTurn entities [e.2] = escapeUnit e.2 := by decide
  have hunit : ∀ u, replaceInTurn entities [u] = escapeUnit u := by
    intro u
    rcases escapeUnit_cases u with ⟨e, he, rfl, -⟩ | ⟨hnone, hu⟩
    · exact hspecial e he
    · rw [hu, replaceInTurn_of_notMem hnone]
  show t.units.flatMap escapeUnit = _
  induction t.units with
  | nil => rfl
  | cons u us ih => rw [List.flatMap_cons, ih, ← hunit, ← replaceInTurn_append,
      List.singleton_append]

/-! ## Tags and what stands between them -/

/-- Where a reader of markup is. -/
inductive State
  | between
  | tag
  /-- In a value, which the unit it was opened with closes. -/
  | value (quote : UInt16)
deriving DecidableEq, Repr

/-- What a unit is to a reader. -/
inductive Part
  /-- It belongs to a tag. -/
  | markup (u : UInt16)
  /-- It belongs to a value, or to what stands between two tags. -/
  | content (u : UInt16)
deriving DecidableEq, Repr

namespace State

/-- Where a reader is after a unit. -/
def next : State → UInt16 → State
  | .between, u => if u = unit '<' then .tag else .between
  | .tag, u =>
    if u = unit '>' then .between
    else if u = unit '"' ∨ u = unit '\'' then .value u
    else .tag
  | .value quote, u => if u = quote then .tag else .value quote

/-- What the next unit is. -/
def part : State → UInt16 → Part
  | .between, u => if u = unit '<' then .markup u else .content u
  | .tag, u => .markup u
  | .value quote, u => if u = quote then .markup u else .content u

/-- Reads units one after the other. -/
def read : State → List UInt16 → List Part
  | _, [] => []
  | s, u :: us => s.part u :: read (s.next u) us

/-- Reading units finds some parts and ends somewhere. -/
def Reads (s : State) (us : List UInt16) (ps : List Part) (s' : State) : Prop :=
  s.read us = ps ∧ us.foldl next s = s'

variable {s s' s'' : State} {us vs : List UInt16} {ps qs : List Part}

instance : Decidable (Reads s us ps s') := inferInstanceAs (Decidable (_ ∧ _))

theorem reads_nil (s : State) : Reads s [] [] s := ⟨rfl, rfl⟩

theorem Reads.cons {u : UInt16} (h : Reads (s.next u) us ps s') :
    Reads s (u :: us) (s.part u :: ps) s' :=
  ⟨congrArg (s.part u :: ·) h.1, h.2⟩

theorem Reads.append (hus : Reads s us ps s') (hvs : Reads s' vs qs s'') :
    Reads s (us ++ vs) (ps ++ qs) s'' := by
  induction us generalizing s ps with
  | nil =>
    obtain ⟨rfl, rfl⟩ := hus
    exact hvs
  | cons u us ih =>
    obtain ⟨rfl, rfl⟩ := hus
    exact (ih ⟨rfl, rfl⟩).cons

/-- Where units leave a reader as it is, they are all parts of one kind. -/
theorem reads_same {f : UInt16 → Part} (h : ∀ u ∈ us, s.next u = s ∧ s.part u = f u) :
    Reads s us (us.map f) s := by
  induction us with
  | nil => exact reads_nil s
  | cons u us ih =>
    obtain ⟨hu, hus⟩ := List.forall_mem_cons.mp h
    have htail : Reads (s.next u) us (us.map f) s := by
      rw [hu.1]
      exact ih hus
    have hcons := htail.cons
    rwa [hu.2] at hcons

end State

def marks (t : Text) : List Part := t.units.map .markup

/-- Units of a value, or of what stands between two tags. -/
def contents (t : Text) : List Part := t.units.map .content

theorem marks_append (s t : Text) : marks (s ++ t) = marks s ++ marks t := List.map_append

open State (Reads)

theorem Quiet.reads_between (h : Quiet t) : Reads .between t.units (contents t) .between :=
  State.reads_same fun u hu => ⟨if_neg (h u hu).1, if_neg (h u hu).1⟩

theorem Quiet.reads_tag (h : Quiet t) : Reads .tag t.units (marks t) .tag := by
  refine State.reads_same fun u hu => ⟨?_, rfl⟩
  obtain ⟨-, hgreater, hquote, hapostrophe⟩ := h u hu
  rw [State.next, if_neg hgreater, if_neg (not_or.mpr ⟨hquote, hapostrophe⟩)]

theorem Quiet.reads_value (h : Quiet t) :
    Reads (.value (unit '"')) t.units (contents t) (.value (unit '"')) :=
  State.reads_same fun u hu => ⟨if_neg (h u hu).2.2.1, if_neg (h u hu).2.2.1⟩

/-! ## Tokens -/

/-- What markup consists of: a tag that opens an element, and ends it at once if `ends`; a tag that
closes one; and a text between tags.  An attribute is a name with a value. -/
inductive Token
  | opening (name : Text) (attrs : List (Text × Text)) (ends : Bool)
  | closing (name : Text)
  | content (t : Text)
deriving DecidableEq, Repr

/-- An attribute, with a blank in front. -/
def attr (a : Text × Text) : Text := " " ++ a.1 ++ "=\"" ++ a.2 ++ "\""

/-- The parts of an attribute. -/
def attrParts (a : Text × Text) : List Part :=
  marks (" " ++ a.1 ++ "=\"") ++ contents a.2 ++ marks "\""

def tagEnd (ends : Bool) : Text := if ends then "/>" else ">"

/-- A name of an element or of an attribute. -/
def IsName (t : Text) : Prop := Quiet t ∧ unit ' ' ∉ t.units ∧ unit '/' ∉ t.units

instance (t : Text) : Decidable (IsName t) := inferInstanceAs (Decidable (_ ∧ _))

namespace Token

def text : Token → Text
  | .opening name attrs ends => "<" ++ name ++ Text.join (attrs.map attr) ++ tagEnd ends
  | .closing name => "</" ++ name ++ ">"
  | .content t => t

def parts : Token → List Part
  | .opening name attrs ends =>
    marks ("<" ++ name) ++ attrs.flatMap attrParts ++ marks (tagEnd ends)
  | .closing name => marks ("</" ++ name ++ ">")
  | .content t => contents t

/-- Tokens as they are written one after the other. -/
def written (ts : List Token) : Text := Text.join (ts.map text)

@[simp] theorem written_nil : written [] = ofString "" := rfl

@[simp] theorem written_cons (t : Token) (ts : List Token) :
    written (t :: ts) = t.text ++ written ts := rfl

theorem written_append (ss ts : List Token) : written (ss ++ ts) = written ss ++ written ts := by
  induction ss with
  | nil => rfl
  | cons t ss ih => rw [List.cons_append, written_cons, written_cons, ih, append_assoc]

/-- A token with names where they belong, and quiet values and texts. -/
def WellFormed : Token → Prop
  | .opening name attrs _ =>
    IsName name ∧ (∀ n ∈ attrs.map (·.1), IsName n) ∧ ∀ v ∈ attrs.map (·.2), Quiet v
  | .closing name => IsName name
  | .content t => Quiet t

instance : (t : Token) → Decidable t.WellFormed
  | .opening .. => inferInstanceAs (Decidable (_ ∧ _))
  | .closing name => inferInstanceAs (Decidable (IsName name))
  | .content t => inferInstanceAs (Decidable (Quiet t))

end Token

theorem reads_attr {a : Text × Text} (hname : Quiet a.1) (hvalue : Quiet a.2) :
    Reads .tag (attr a).units (attrParts a) .tag := by
  have hopen : Reads .tag (" " ++ a.1 ++ "=\"" : Text).units (marks (" " ++ a.1 ++ "=\""))
      (.value (unit '"')) := by
    have hfront : Quiet (" " ++ a.1 : Text) := Quiet.append (by decide) hname
    have hback : Reads .tag (unitsOf "=\"") (marks "=\"") (.value (unit '"')) := by decide
    rw [marks_append]
    exact hfront.reads_tag.append hback
  have hclose : Reads (.value (unit '"')) (unitsOf "\"") (marks "\"") .tag := by decide
  exact (hopen.append hvalue.reads_value).append hclose

theorem reads_attrs {attrs : List (Text × Text)} (hnames : ∀ n ∈ attrs.map (·.1), Quiet n)
    (hvalues : ∀ v ∈ attrs.map (·.2), Quiet v) :
    Reads .tag (Text.join (attrs.map attr)).units (attrs.flatMap attrParts) .tag := by
  induction attrs with
  | nil => exact State.reads_nil _
  | cons a attrs ih =>
    rw [List.map_cons, List.forall_mem_cons] at hnames hvalues
    exact (reads_attr hnames.1 hvalues.1).append (ih hnames.2 hvalues.2)

theorem Token.WellFormed.reads {t : Token} (h : t.WellFormed) :
    Reads .between t.text.units t.parts .between := by
  cases t with
  | opening name attrs ends =>
    obtain ⟨hname, hnames, hvalues⟩ := h
    have hstart : Reads .between ("<" ++ name : Text).units (marks ("<" ++ name)) .tag :=
      State.Reads.cons hname.1.reads_tag
    have hend : Reads .tag (tagEnd ends).units (marks (tagEnd ends)) .between := by
      cases ends <;> decide
    exact (hstart.append (reads_attrs (fun n hn => (hnames n hn).1) hvalues)).append hend
  | closing name =>
    have hstart : Reads .between (unitsOf "</") (marks "</") .tag := by decide
    have hend : Reads .tag (unitsOf ">") (marks ">") .between := by decide
    rw [Token.parts, marks_append, marks_append]
    exact (hstart.append h.1.reads_tag).append hend
  | content t => exact Quiet.reads_between h

/-- **A reader finds the tokens that were written.** -/
theorem read_tokens {ts : List Token} (h : ∀ t ∈ ts, t.WellFormed) :
    Reads .between (Token.written ts).units (ts.flatMap Token.parts) .between := by
  induction ts with
  | nil => exact State.reads_nil _
  | cons t ts ih =>
    obtain ⟨ht, hts⟩ := List.forall_mem_cons.mp h
    exact ht.reads.append (ih hts)

/-! ## Counting tags -/

/-- How often a part occurs. -/
def occurrences (part us : List UInt16) : Nat := us.tails.countP (part.isPrefixOf ·)

section Counting

variable {u : UInt16} {us : List UInt16} {name : Text}

theorem occurrences_cons (part : List UInt16) (u : UInt16) (us : List UInt16) :
    occurrences part (u :: us) =
      occurrences part us + if part <+: u :: us then 1 else 0 := by
  rw [occurrences, List.tails_cons, List.countP_cons]
  simp only [List.isPrefixOf_iff_prefix]
  rfl

/-- No part starts where its first unit is missing. -/
theorem occurrences_append_of_notMem (hu : u ∉ us) (part rest : List UInt16) :
    occurrences (u :: part) (us ++ rest) = occurrences (u :: part) rest := by
  induction us with
  | nil => rfl
  | cons v us ih =>
    rw [List.mem_cons, not_or] at hu
    rw [List.cons_append, occurrences_cons, if_neg fun h => hu.1 (List.cons_prefix_cons.mp h).1,
      Nat.add_zero, ih hu.2]

/-- Only the name itself is followed by a blank where a name is read. -/
theorem name_prefix_iff {c : UInt16} {ns ms more : List UInt16} (hms : unit ' ' ∉ ms)
    (hc : c ∉ ns) : ns ++ [unit ' '] <+: ms ++ c :: more ↔ ms = ns ∧ c = unit ' ' := by
  induction ns generalizing ms with
  | nil =>
    cases ms with
    | nil => simp [List.cons_prefix_cons, eq_comm]
    | cons m ms =>
      rw [List.mem_cons, not_or] at hms
      simp [List.cons_prefix_cons, hms.1]
  | cons n ns ih =>
    rw [List.mem_cons, not_or] at hc
    cases ms with
    | nil => simp [List.cons_prefix_cons, Ne.symm hc.1]
    | cons m ms =>
      rw [List.mem_cons, not_or] at hms
      rw [List.cons_append, List.cons_append, List.cons_prefix_cons, ih hms.2 hc.2, eq_comm,
        List.cons.injEq, and_assoc]

/-- The start of a tag that opens an element with attributes. -/
def tagStart (name : Text) : List UInt16 := unit '<' :: (name.units ++ [unit ' '])

/-- Whether a token opens an element of a name with attributes. -/
def Token.opens (name : Text) : Token → Bool
  | .opening n attrs _ => n = name && !attrs.isEmpty
  | _ => false

theorem less_notMem_of_quiet {t : Text} (h : Quiet t) : unit '<' ∉ t.units :=
  fun hmem => (h _ hmem).1 rfl

theorem less_notMem_append {s t : Text} (hs : unit '<' ∉ s.units) (ht : unit '<' ∉ t.units) :
    unit '<' ∉ (s ++ t).units := fun hmem => (List.mem_append.mp hmem).elim hs ht

theorem less_notMem_attrs {attrs : List (Text × Text)} (hnames : ∀ n ∈ attrs.map (·.1), Quiet n)
    (hvalues : ∀ v ∈ attrs.map (·.2), Quiet v) :
    unit '<' ∉ (Text.join (attrs.map attr)).units := by
  induction attrs with
  | nil => exact List.not_mem_nil
  | cons a attrs ih =>
    rw [List.map_cons, List.forall_mem_cons] at hnames hvalues
    rw [List.map_cons, join_cons]
    have hstart : unit '<' ∉ (" " ++ a.1 ++ "=\"" : Text).units :=
      less_notMem_append (less_notMem_append (by decide) (less_notMem_of_quiet hnames.1))
        (by decide)
    refine less_notMem_append ?_ (ih hnames.2 hvalues.2)
    exact less_notMem_append (less_notMem_append hstart (less_notMem_of_quiet hvalues.1))
      (by decide)

/-- **The start of a tag occurs where its name is followed by a blank**, and not behind that in the
tag. -/
theorem occurrences_tag {n name : Text} {c : UInt16} {more : List UInt16} (hn : unit ' ' ∉ n.units)
    (hc : c ∉ name.units) (hless : unit '<' ∉ n.units ++ c :: more) (rest : List UInt16) :
    occurrences (tagStart name) (unit '<' :: (n.units ++ c :: more) ++ rest) =
      occurrences (tagStart name) rest + if n = name ∧ c = unit ' ' then 1 else 0 := by
  rw [List.cons_append, occurrences_cons, tagStart, occurrences_append_of_notMem hless]
  simp only [List.cons_prefix_cons, true_and, List.append_assoc, List.cons_append,
    name_prefix_iff hn hc, Text.ext_iff]

/-- Behind the name of a tag there is the blank in front of an attribute, or the end of the tag. -/
theorem exists_behind_name (attrs : List (Text × Text)) (ends : Bool) {name : Text}
    (hname : IsName name) :
    ∃ c more, (Text.join (attrs.map attr)).units ++ (tagEnd ends).units = c :: more ∧
      c ∉ name.units ∧ (c = unit ' ' ↔ attrs.isEmpty = false) := by
  have hgreater : unit '>' ∉ name.units := fun hmem => (hname.1 _ hmem).2.1 rfl
  cases attrs with
  | nil =>
    cases ends with
    | false => exact ⟨unit '>', [], rfl, hgreater, by decide⟩
    | true => exact ⟨unit '/', [unit '>'], rfl, hname.2.2, by decide⟩
  | cons a attrs => exact ⟨unit ' ', _, rfl, hname.2.1, iff_of_true rfl rfl⟩

theorem Token.WellFormed.occurrences_text {t : Token} (h : t.WellFormed) {name : Text}
    (hname : IsName name) (rest : List UInt16) :
    occurrences (tagStart name) (t.text.units ++ rest) =
      occurrences (tagStart name) rest + if t.opens name then 1 else 0 := by
  cases t with
  | opening n attrs ends =>
    obtain ⟨hn, hnames, hvalues⟩ := h
    have hend : ∀ ends, unit '<' ∉ (tagEnd ends).units := by decide
    have hbehind := less_notMem_append
      (less_notMem_attrs (fun m hm => (hnames m hm).1) hvalues) (hend ends)
    have hless := less_notMem_append (less_notMem_of_quiet hn.1) hbehind
    obtain ⟨c, more, hmore, hc, hblank⟩ := exists_behind_name attrs ends hname
    have htext : (Token.opening n attrs ends).text.units =
        unit '<' :: (n.units ++ c :: more) := by
      rw [← hmore, ← List.append_assoc]
      rfl
    have hopens : (Token.opening n attrs ends).opens name = true ↔ n = name ∧ c = unit ' ' := by
      rw [hblank]
      simp [Token.opens]
    rw [htext, occurrences_tag hn.2.1 hc (hmore ▸ hless)]
    simp only [hopens]
  | closing n =>
    have hless := less_notMem_append (less_notMem_append (s := "/") (by decide)
      (less_notMem_of_quiet h.1)) (t := ">") (by decide)
    have htag := occurrences_tag (n := "") (by decide) hname.2.2 hless rest
    rw [if_neg fun hblank => absurd hblank.2 (by decide)] at htag
    exact htag
  | content t =>
    rw [Token.text, tagStart, occurrences_append_of_notMem (less_notMem_of_quiet h)]
    rfl

/-- **A tag with attributes occurs as often as an element of its name is opened with some**: neither
names, values nor texts make another one. -/
theorem occurrences_tokens {ts : List Token} (h : ∀ t ∈ ts, t.WellFormed) (hname : IsName name) :
    occurrences (tagStart name) (Token.written ts).units =
      ts.countP (Token.opens name) := by
  induction ts with
  | nil => rfl
  | cons t ts ih =>
    obtain ⟨ht, hts⟩ := List.forall_mem_cons.mp h
    rw [List.countP_cons, ← ih hts]
    exact ht.occurrences_text hname _

end Counting

end Honeycomb.Text.Markup
