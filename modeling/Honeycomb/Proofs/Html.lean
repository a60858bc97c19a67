import Honeycomb.Html.Page
import Honeycomb.Proofs.Json.Inline
import Honeycomb.Proofs.Text.Occurrence

/-!
# Pages are filled in two places only

* `Filled` — a page with data and code at its own marks, whichever of them it has, in either order.
* `apart_dataScript` — the script that holds the data neither holds the reference to the code nor
  makes one with what stands next to it, whatever the modules and the address are.
* `render_filled` — so a rendered page is the one page that is filled so.
-/

set_option autoImplicit false

namespace Honeycomb.Html

open Text (unit unitsOf FirstAt Apart)

/-! ## The data -/

/-- The two marks of a page keep apart. -/
theorem apart_marks : Apart dataMark.units codeReference.units := by decide +kernel

/-- The closing tag of a script right behind a tag: what the reference to the code ends with. -/
def closedTag : List UInt16 := unitsOf "></"

theorem not_closedTag_inline (v : Json) : ¬ closedTag <:+: v.inline.units := by
  have hsuffix : unitsOf "</" <:+: closedTag := by decide +kernel
  exact fun h => Json.not_infix_guardClosers (Json.units v) (hsuffix.trans h)

theorem units_append (s t : Text) : (s ++ t).units = s.units ++ t.units := rfl

/-- The script that holds the data: each value stands between a blank and a semicolon. -/
theorem dataScript_units (modules : List Module) (service : Text) :
    (dataScript modules service).units =
      unitsOf "<script>window.MODULE_DATA =" ++ unit ' ' ::
        ((Module.listToJson modules).inline.units ++ unit ';' ::
          if service = "" then unitsOf "</script>"
          else unitsOf " window.HEXDECK_API =" ++ unit ' ' ::
            ((Json.text service).inline.units ++ unit ';' :: unitsOf "</script>")) := by
  unfold dataScript script assignments Text.intercalate
  split
  · simp only [units_append, List.map_cons, List.map_nil, List.intercalate_singleton,
      List.append_assoc]
    rfl
  · simp only [units_append, List.map_cons, List.map_nil, List.intercalate_singleton,
      List.intercalate_cons_cons, List.append_assoc]
    rfl

/-- Before and behind every value there is a unit that the tag does not have. -/
theorem not_closedTag_dataScript (modules : List Module) (service : Text) :
    ¬ closedTag <:+: (dataScript modules service).units := by
  have hblank : unit ' ' ∉ closedTag := by decide +kernel
  have hsemicolon : unit ';' ∉ closedTag := by decide +kernel
  have hclose : ¬ closedTag <:+: unitsOf "</script>" := by decide +kernel
  rw [dataScript_units]
  refine Text.not_infix_append_cons hblank (by decide +kernel) ?_
  refine Text.not_infix_append_cons hsemicolon (not_closedTag_inline _) ?_
  split
  · exact hclose
  · refine Text.not_infix_append_cons hblank (by decide +kernel) ?_
    exact Text.not_infix_append_cons hsemicolon (not_closedTag_inline _) hclose

theorem prefix_dataScript (modules : List Module) (service : Text) :
    unitsOf "<script>window.MODULE_DATA =" <+: (dataScript modules service).units := by
  rw [dataScript_units]
  exact List.prefix_append _ _

theorem suffix_dataScript (modules : List Module) (service : Text) :
    unit ';' :: unitsOf "</script>" <:+ (dataScript modules service).units := by
  have hskip : ∀ {a b c : List UInt16} {u : UInt16}, c <:+ b → c <:+ a ++ u :: b :=
    fun h => List.suffix_append_of_suffix (List.suffix_cons_iff.mpr (.inr h))
  rw [dataScript_units]
  refine hskip ?_
  split
  · exact List.suffix_append _ _
  · exact hskip (hskip (List.suffix_append _ _))

/-- **The data keeps apart from the reference to the code**, whatever the modules and the address
are. -/
theorem apart_dataScript (modules : List Module) (service : Text) :
    Apart (dataScript modules service).units codeReference.units := by
  have hstart : Apart (unitsOf "<script>window.MODULE_DATA =") codeReference.units := by
    decide +kernel
  have hend : Apart (unit ';' :: unitsOf "</script>") codeReference.units := by decide +kernel
  have htag : closedTag <:+: codeReference.units := by decide +kernel
  refine Apart.of_ends (fun h => ?_) (prefix_dataScript modules service)
    (suffix_dataScript modules service) hstart hend
  exact not_closedTag_dataScript modules service (htag.trans h)

/-! ## Filling -/

/-- A page with data and code at its own marks: each at the first one, with everything else as it
is, and left out where the page has no mark for it. -/
inductive Filled (data code page : List UInt16) : List UInt16 → Prop
  | untouched : ¬ dataMark.units <:+: page → ¬ codeReference.units <:+: page →
      Filled data code page page
  | dataAlone {before after : List UInt16} : FirstAt dataMark.units page before after →
      ¬ codeReference.units <:+: page → Filled data code page (before ++ data ++ after)
  | codeAlone {before after : List UInt16} : ¬ dataMark.units <:+: page →
      FirstAt codeReference.units page before after →
      Filled data code page (before ++ code ++ after)
  | dataThenCode {before between after : List UInt16} :
      FirstAt dataMark.units page before (between ++ codeReference.units ++ after) →
      FirstAt codeReference.units page (before ++ dataMark.units ++ between) after →
      Filled data code page (before ++ data ++ between ++ code ++ after)
  | codeThenData {before between after : List UInt16} :
      FirstAt codeReference.units page before (between ++ dataMark.units ++ after) →
      FirstAt dataMark.units page (before ++ codeReference.units ++ between) after →
      Filled data code page (before ++ code ++ between ++ data ++ after)

variable {data code page text : List UInt16}

/-- Every page can be filled. -/
theorem exists_filled (data code page : List UInt16) : ∃ text, Filled data code page text := by
  by_cases hdata : dataMark.units <:+: page
  · obtain ⟨x, y, hfirst⟩ := Text.exists_firstAt hdata
    by_cases hcode : codeReference.units <:+: page
    · obtain ⟨z, w, hfirst'⟩ := Text.exists_firstAt hcode
      rcases apart_marks.split (hfirst.split.symm.trans hfirst'.split) with
        ⟨m, rfl, rfl⟩ | ⟨m, rfl, rfl⟩
      · exact ⟨_, .dataThenCode hfirst hfirst'⟩
      · exact ⟨_, .codeThenData hfirst' hfirst⟩
    · exact ⟨_, .dataAlone hfirst hcode⟩
  · by_cases hcode : codeReference.units <:+: page
    · obtain ⟨x, y, hfirst⟩ := Text.exists_firstAt hcode
      exact ⟨_, .codeAlone hdata hfirst⟩
    · exact ⟨page, .untouched hdata hcode⟩

/-- **Putting the data in first and the code afterwards fills the page**, since the data keep apart
from what the code replaces. -/
theorem Filled.eq_replaceFirst (h : Filled data code page text)
    (hdata : Apart data codeReference.units) :
    text = Text.replaceFirst codeReference.units code
      (Text.replaceFirst dataMark.units data page) := by
  cases h with
  | untouched hnodata hnocode =>
    rw [Text.replaceFirst_of_not_infix hnodata, Text.replaceFirst_of_not_infix hnocode]
  | dataAlone hfirst hnocode =>
    rw [Text.replaceFirst_of_firstAt hfirst, Text.replaceFirst_of_not_infix]
    rw [hdata.infix_iff, ← apart_marks.infix_iff, ← hfirst.split]
    exact hnocode
  | codeAlone hnodata hfirst =>
    rw [Text.replaceFirst_of_not_infix hnodata, Text.replaceFirst_of_firstAt hfirst]
  | dataThenCode hmark hreference =>
    rw [Text.replaceFirst_of_firstAt hmark]
    rw [hmark.split] at hreference
    rw [Text.replaceFirst_of_firstAt (hreference.swap_before hdata)]
  | codeThenData hreference hmark =>
    rw [Text.replaceFirst_of_firstAt hmark]
    rw [hmark.split] at hreference
    rw [Text.replaceFirst_of_firstAt (hreference.swap_behind hdata)]
    simp only [List.append_assoc]

/-- **A rendered page is its own text with the data at its first mark for them and the code at its
first reference to it**, and nothing that the data hold is taken for that reference. -/
theorem render_filled (directory page code : Text) (modules : List Module) (service : Text) :
    ∃ result, render ⟨directory, some page, some code⟩ modules service = .ok result ∧
      (∀ text, Filled (dataScript modules service).units (script code).units page.units text ↔
        text = result.units) ∧
      ∀ before after,
        codeReference.units <:+: before ++ (dataScript modules service).units ++ after ↔
          codeReference.units <:+: before ∨ codeReference.units <:+: after := by
  have hapart := apart_dataScript modules service
  refine ⟨fill page code modules service, rfl, fun text => ⟨fun h => ?_, fun h => ?_⟩,
    fun before after => hapart.infix_iff⟩
  · exact h.eq_replaceFirst hapart
  · obtain ⟨filled, hfilled⟩ :=
      exists_filled (dataScript modules service).units (script code).units page.units
    have heq : filled = text := (hfilled.eq_replaceFirst hapart).trans h.symm
    rw [← heq]
    exact hfilled

end Honeycomb.Html
