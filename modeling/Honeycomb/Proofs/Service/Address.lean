import Mathlib.Data.List.DropRight
import Honeycomb.Controller.Session
import Honeycomb.Proofs.Text.Percent

/-!
# Addresses

The address of a change ends in the name of the module, written as a segment of the path.

* `Admin.dropSlashes_spec`, `Admin.dropSlashes_slashed` — what is dropped from the end of a base.
* `Session.module?_of_url` — requests with one address are about the same module.
* `Admin.address_exact` — what an address is made of, and that the module can be read off it.
-/

set_option autoImplicit false

namespace Honeycomb

open Text (unit)

/-- The module that a call is about; a fetch is about all of them. -/
def Call.module? : Call → Option Text
  | .fetch _ => none
  | .toggle name => some name
  | .update name _ => some name

namespace Admin

/-! ## The base -/

theorem dropSlashes_concat (us : List UInt16) (u : UInt16) :
    dropSlashes (us ++ [u]) = if u == unit '/' then dropSlashes us else us ++ [u] :=
  List.rdropWhile_concat _ us u

/-- All slashes at the end are dropped, and nothing else. -/
theorem dropSlashes_spec (us : List UInt16) :
    (∃ n, us = dropSlashes us ++ List.replicate n (unit '/')) ∧
      (dropSlashes us).getLast? ≠ some (unit '/') := by
  induction us using List.reverseRecOn with
  | nil => exact ⟨⟨0, rfl⟩, nofun⟩
  | append_singleton us u ih =>
    obtain ⟨⟨n, hn⟩, hlast⟩ := ih
    rw [dropSlashes_concat]
    by_cases hu : u = unit '/'
    · subst hu
      rw [if_pos (beq_self_eq_true _)]
      refine ⟨⟨n + 1, ?_⟩, hlast⟩
      rw [List.replicate_succ', ← List.append_assoc, ← hn]
    · rw [if_neg (mt beq_iff_eq.mp hu)]
      refine ⟨⟨0, (List.append_nil _).symm⟩, ?_⟩
      rw [List.getLast?_concat]
      exact fun h => hu (Option.some.inj h)

/-- However many slashes stand at the end, they are dropped. -/
theorem dropSlashes_slashed (us : List UInt16) (n : Nat) :
    dropSlashes (us ++ List.replicate n (unit '/')) = dropSlashes us := by
  induction n with
  | zero => rw [List.replicate_zero, List.append_nil]
  | succ n ih =>
    rw [List.replicate_succ', ← List.append_assoc, dropSlashes_concat, if_pos (beq_self_eq_true _),
      ih]

end Admin

/-! ## Addresses tell modules apart -/

namespace Session

variable {admin : Admin} {call call' : Call} {r r' : Request}

/-- What stands between the base and the segment of an address. -/
def route : Call → Text
  | .fetch _ => "/api/config"
  | .toggle _ => "/api/toggle/"
  | .update _ _ => "/api/update/"

def routes : List Text := ["/api/config", "/api/toggle/", "/api/update/"]

theorem route_mem_routes (call : Call) : route call ∈ routes := by
  cases call with
  | fetch _ => exact List.mem_cons_self
  | toggle _ => exact List.mem_cons_of_mem _ List.mem_cons_self
  | update _ _ => exact List.mem_cons_of_mem _ (List.mem_cons_of_mem _ List.mem_cons_self)

/-- No route is the start of another one. -/
theorem eq_of_route_starts :
    ∀ a ∈ routes, ∀ b ∈ routes, a.units <+: b.units → a = b := by
  decide

/-- A route and what stands behind it can be told apart. -/
theorem eq_of_route_append {us vs : List UInt16}
    (h : (route call).units ++ us = (route call').units ++ vs) :
    route call = route call' ∧ us = vs := by
  have hroute : route call = route call' := by
    rcases List.prefix_or_prefix_of_prefix (List.prefix_append _ us)
        (h ▸ List.prefix_append _ vs) with hstarts | hstarts
    · exact eq_of_route_starts _ (route_mem_routes call) _ (route_mem_routes call') hstarts
    · exact (eq_of_route_starts _ (route_mem_routes call') _ (route_mem_routes call) hstarts).symm
  rw [hroute] at h
  exact ⟨hroute, List.append_cancel_left h⟩

theorem isSome_module? (call : Call) : call.module?.isSome = (route call != "/api/config") := by
  cases call <;> rfl

/-- The address of a request: base, route and, if the call is about a module, its segment. -/
theorem url_of_requestOf? (h : requestOf? admin call = some r) :
    ∃ segment : Text, r.url.units = admin.base.units ++ ((route call).units ++ segment.units) ∧
      ∀ name, call.module? = some name → Text.Percent.segment? name = some segment := by
  cases call with
  | fetch n =>
    cases h
    exact ⟨"", rfl, nofun⟩
  | toggle name =>
    obtain ⟨segment, hsegment, rfl⟩ := Option.map_eq_some_iff.mp h
    refine ⟨segment, List.append_assoc _ _ _, ?_⟩
    rintro _ ⟨⟩
    exact hsegment
  | update name fields =>
    obtain ⟨segment, hsegment, rfl⟩ := Option.map_eq_some_iff.mp h
    refine ⟨segment, List.append_assoc _ _ _, ?_⟩
    rintro _ ⟨⟩
    exact hsegment

/-- **Requests with one address are about the same module.** -/
theorem module?_of_url (h : requestOf? admin call = some r) (h' : requestOf? admin call' = some r')
    (hurl : r.url = r'.url) : call.module? = call'.module? := by
  obtain ⟨segment, hunits, hsegment⟩ := url_of_requestOf? h
  obtain ⟨segment', hunits', hsegment'⟩ := url_of_requestOf? h'
  obtain ⟨hroute, hsame⟩ := eq_of_route_append
    (List.append_cancel_left (hunits.symm.trans ((congrArg Text.units hurl).trans hunits')))
  have hsame : segment = segment' := Text.ext hsame
  have hkind : call.module?.isSome = call'.module?.isSome := by
    rw [isSome_module?, isSome_module?, hroute]
  cases hname : call.module? with
  | none =>
    cases hname' : call'.module? with
    | none => rfl
    | some name' =>
      rw [hname, hname'] at hkind
      cases hkind
  | some name =>
    cases hname' : call'.module? with
    | none =>
      rw [hname, hname'] at hkind
      cases hkind
    | some name' =>
      have hread := hsegment' name' hname'
      rw [← hsame] at hread
      rw [Text.Percent.segment?_injective (hsegment name hname) hread]

end Session

/-! ## What an address is made of -/

namespace Admin

open Session (requestOf?)

/-- **An address names its module exactly.**  Behind the base, which is the given one without the
slashes at its end, and a fixed route stands a segment of plain characters and bytes in hexadecimal,
so that nothing ends it; it spells the name in UTF-8, and is read as the name.  Calls about
different modules have different addresses, and it makes no difference to any request how many
slashes the given base ends in. -/
theorem address_exact (url : Text) (key : Option Text) :
    ((∃ n, url.units = (ofUrl url key).base.units ++ List.replicate n (unit '/')) ∧
        (ofUrl url key).base.units.getLast? ≠ some (unit '/')) ∧
      (∀ (name : Text) (cs : List Char), name.chars? = some cs →
        ∃ segment : Text,
          ((ofUrl url key).toggleRequest? name).map Request.url =
              some ((ofUrl url key).base ++ "/api/toggle/" ++ segment) ∧
            (∀ fields : Fields Setting,
              ((ofUrl url key).updateRequest? name fields).map Request.url =
                some ((ofUrl url key).base ++ "/api/update/" ++ segment)) ∧
            Text.Percent.Spells segment.units
              ((String.ofList cs).toUTF8.data.toList.map UInt8.toNat) ∧
            (unit '/' ∉ segment.units ∧ unit '?' ∉ segment.units ∧ unit '#' ∉ segment.units) ∧
            Text.Percent.decode? segment = some name) ∧
      (∀ (call call' : Call) (r r' : Request), requestOf? (ofUrl url key) call = some r →
        requestOf? (ofUrl url key) call' = some r' → r.url = r'.url →
          call.module? = call'.module?) ∧
      (∀ (stem : List UInt16) (j k : Nat), url.units = stem ++ List.replicate j (unit '/') →
        ∀ calls : List Call,
          calls.map (requestOf? (ofUrl url key)) =
            calls.map (requestOf? (ofUrl ⟨stem ++ List.replicate k (unit '/')⟩ key))) := by
  refine ⟨dropSlashes_spec url.units, ?_, ?_, ?_⟩
  · intro name cs hchars
    obtain ⟨segment, hsegment, hspells, hdecode⟩ := Text.Percent.segment_spec hchars
    refine ⟨segment, ?_, ?_, hspells, ⟨?_, ?_, ?_⟩, hdecode⟩
    · rw [toggleRequest?, hsegment]
      rfl
    · intro fields
      rw [updateRequest?, hsegment]
      rfl
    all_goals exact hspells.unit_notMem (by decide) (by decide) (by decide)
  · intro call call' r r' h h' hurl
    exact Session.module?_of_url h h' hurl
  · intro stem j k hunits calls
    have hbase : ofUrl ⟨stem ++ List.replicate k (unit '/')⟩ key = ofUrl url key := by
      rw [ofUrl, ofUrl, hunits, dropSlashes_slashed, dropSlashes_slashed]
    rw [hbase]

/-- A name with marks that part an address, an accent and a character of two units. -/
theorem address_of_awkward_name :
    ((ofUrl "http://localhost:8080//" none).toggleRequest? "a/b?#é🐝").map Request.url =
        some "http://localhost:8080/api/toggle/a%2Fb%3F%23%C3%A9%F0%9F%90%9D" ∧
      ∃ segment : Text,
        Text.ofString "http://localhost:8080/api/toggle/a%2Fb%3F%23%C3%A9%F0%9F%90%9D" =
            (ofUrl "http://localhost:8080//" none).base ++ "/api/toggle/" ++ segment ∧
          Text.Percent.decode? segment = some "a/b?#é🐝" := by
  have hurl : ((ofUrl "http://localhost:8080//" none).toggleRequest? "a/b?#é🐝").map Request.url =
      some "http://localhost:8080/api/toggle/a%2Fb%3F%23%C3%A9%F0%9F%90%9D" := by decide
  obtain ⟨-, hnames, -, -⟩ := address_exact "http://localhost:8080//" none
  obtain ⟨segment, htoggle, -, -, -, hdecode⟩ :=
    hnames "a/b?#é🐝" "a/b?#é🐝".toList (by decide)
  rw [hurl] at htoggle
  exact ⟨hurl, segment, Option.some.inj htoggle, hdecode⟩

end Admin

end Honeycomb
