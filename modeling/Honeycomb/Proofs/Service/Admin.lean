import Honeycomb.Controller.Session
import Honeycomb.Proofs.Decimal.Range
import Honeycomb.Proofs.Module.Payload
import Honeycomb.Proofs.Setting

/-!
# What an update carries

The settings that were typed go to the admin service as the text of a JSON object.

* `Setting.parse?_render_fieldsToJson` — what that text stands for: the settings, but nothing in
  place of a number that is not finite.
* `Setting.Overflows` — the typed texts that are read as such a number.
* `Session.update_carries` — the request that a save makes carries what was typed exactly if none of
  the texts overflows.
-/

set_option autoImplicit false

namespace Honeycomb

open Text (unit)

namespace Setting

/-! ## Settings in a text -/

/-- What is left of a value in a text. -/
def carried : Setting → Json
  | .number x => if x.isFinite then .number x else .null
  | s => s.toJson

/-- What is left of settings in a text. -/
def carriedToJson (fs : Fields Setting) : Json := .object (fs.mapValues carried)

theorem carried_eq_toJson_iff {s : Setting} :
    s.carried = s.toJson ↔ ∀ x, s = .number x → x.isFinite = true := by
  cases s with
  | number x =>
    by_cases h : x.isFinite = true
    · refine iff_of_true (if_pos h) ?_
      rintro _ ⟨⟩
      exact h
    · have hnull : carried (.number x) = .null := if_neg h
      rw [hnull]
      exact iff_of_false nofun fun hall => h (hall x rfl)
  | _ => exact iff_of_true rfl nofun

theorem carriedToJson_eq_iff {fs : Fields Setting} :
    carriedToJson fs = fieldsToJson fs ↔
      ∀ e ∈ fs, ∀ x, e.2 = .number x → x.isFinite = true := by
  unfold carriedToJson fieldsToJson Fields.mapValues
  rw [Json.object.injEq, List.map_inj_left]
  simp only [Prod.mk.injEq, true_and, carried_eq_toJson_iff]

/-- Nothing is written in place of a number that is not finite. -/
theorem units_carried (s : Setting) : Json.units s.carried = Json.units s.toJson := by
  cases s with
  | number x =>
    have hnumber : Json.units (toJson (.number x)) =
        if x.isFinite then numberUnits x else Text.unitsOf "null" := by
      rw [toJson, Json.units, Json.numberToken]
    rw [hnumber, carried]
    by_cases h : x.isFinite = true
    · rw [if_pos h, if_pos h, Json.units, Json.numberToken, if_pos h]
    · rw [if_neg h, if_neg h, Json.units]
  | _ => rfl

theorem memberUnits_carried (fs : Fields Setting) :
    Json.memberUnits (fs.mapValues carried) = Json.memberUnits (fs.mapValues toJson) := by
  induction fs with
  | nil => rfl
  | cons e rest ih =>
    obtain ⟨key, s⟩ := e
    cases rest with
    | nil =>
      show Json.memberUnits [(key, s.carried)] = Json.memberUnits [(key, s.toJson)]
      rw [Json.memberUnits, Json.memberUnits, units_carried]
    | cons e rest =>
      simp only [Fields.mapValues, List.map_cons, Json.memberUnits_cons_cons, units_carried]
        at ih ⊢
      rw [ih]

theorem render_carriedToJson (fs : Fields Setting) :
    (carriedToJson fs).render = (fieldsToJson fs).render := by
  show Text.mk (Json.units (.object _)) = Text.mk (Json.units (.object _))
  rw [Json.units, Json.units, memberUnits_carried]

/-- **What the text of settings stands for**, if they are in order. -/
theorem parse?_render_fieldsToJson {fs : Fields Setting} (horder : fs.Canonical)
    (hsigns : ∀ e ∈ fs, e.2 ≠ .number (-0)) :
    Json.parse? (fieldsToJson fs).render = some (carriedToJson fs) := by
  rw [← render_carriedToJson]
  refine Json.parse?_render (.object (horder.of_keys ?_) ?_)
  · rw [Fields.keys_mapValues]
  intro e he
  obtain ⟨⟨key, s⟩, hmem, rfl⟩ := List.mem_map.mp he
  cases s with
  | text t => exact .text t
  | flag b => exact .bool b
  | number x =>
    rw [carried]
    split
    · rename_i hfinite
      refine .number hfinite ?_
      rintro rfl
      exact hsigns _ hmem rfl
    · exact .null

/-! ## Typed numbers beyond the floats -/

/-- Digits on both sides of a point that spell a number beyond the floats. -/
def Overflows (t : Text) : Prop :=
  ∃ whole fraction, t.units = whole ++ unit '.' :: fraction ∧ whole ≠ [] ∧ fraction ≠ [] ∧
    (∀ u ∈ whole, Digits.isDigit u = true) ∧ (∀ u ∈ fraction, Digits.isDigit u = true) ∧
      Binary.overflow * 10 ^ fraction.length ≤ Digits.toNat (whole ++ fraction)

theorem isFinite_floatOfParts_iff (whole fraction : List UInt16) :
    (floatOfParts whole fraction 0).isFinite = true ↔
      ¬ Binary.overflow * 10 ^ fraction.length ≤ Digits.toNat (whole ++ fraction) := by
  rw [floatOfParts, isFinite_nearestFloat_iff, Nat.not_le, Int.zero_sub, zpow_neg, zpow_natCast,
    ← div_eq_mul_inv, div_lt_iff₀ (by positivity)]
  exact_mod_cast Iff.rfl

theorem isFinite_ofNat {n : Nat} (hn : n ≤ greatestSafe) : (Float.ofNat n).isFinite = true := by
  have hsafe : greatestSafe < Binary.overflow := by decide +kernel
  rw [ofNat_eq_nearestFloat hn, isFinite_nearestFloat_iff, zpow_zero, mul_one]
  exact_mod_cast lt_of_le_of_lt hn hsafe

/-- **A typed number has no lost sign, and it is finite exactly if its text does not overflow.** -/
theorem number?_spec {t : Text} {x : Float} (h : number? t.units = some x) :
    x ≠ -0 ∧ (x.isFinite = true ↔ ¬ Overflows t) := by
  have hnumeral : Numeral t.units := number?_isSome_iff.mp (by rw [h]; rfl)
  rcases hnumeral with ⟨hne, hd, hsafe⟩ | ⟨whole, fraction, hunits, hw, hf, hwd, hfd⟩
  · rw [number?_of_digits hne hd, if_pos hsafe] at h
    obtain rfl := Option.some.inj h
    refine ⟨?_, iff_of_true (isFinite_ofNat hsafe) ?_⟩
    · rw [ofNat_eq_nearestFloat hsafe]
      exact nearestFloat_ne_neg_zero _ _
    rintro ⟨whole, fraction, hunits, -⟩
    have hpoint := hd (unit '.') (by rw [hunits]; simp)
    rw [isDigit_point] at hpoint
    cases hpoint
  · rw [hunits, number?_of_mark hwd isDigit_point,
      if_pos ⟨hw, rfl, hf, List.all_eq_true.mpr hfd⟩] at h
    obtain rfl := Option.some.inj h
    refine ⟨nearestFloat_ne_neg_zero _ _, ?_⟩
    rw [isFinite_floatOfParts_iff]
    refine not_congr ⟨fun hle => ⟨whole, fraction, hunits, hw, hf, hwd, hfd, hle⟩, ?_⟩
    rintro ⟨whole', fraction', hunits', -, -, hwd', -, hle⟩
    -- the digits before the point end where the point stands
    have htake : ∀ {ds rest : List UInt16}, (∀ u ∈ ds, Digits.isDigit u = true) →
        Digits.take (ds ++ unit '.' :: rest) = (ds, unit '.' :: rest) := fun hds =>
      Digits.take_append hds (by rintro _ _ ⟨⟩; exact isDigit_point)
    have hsame := congrArg Digits.take (hunits.symm.trans hunits')
    rw [htake hwd, htake hwd', Prod.mk.injEq, List.cons.injEq] at hsame
    obtain ⟨rfl, -, rfl⟩ := hsame
    exact hle

theorem ofTyped_of_overflows {t : Text} (h : Overflows t) : ∃ x, ofTyped t = .number x := by
  obtain ⟨whole, fraction, hunits, hw, hf, hwd, hfd, -⟩ := h
  refine ⟨floatOfParts whole fraction 0, ofTyped_eq_number_iff.mpr ?_⟩
  rw [hunits, number?_of_mark hwd isDigit_point,
    if_pos ⟨hw, rfl, hf, List.all_eq_true.mpr hfd⟩]

/-- What is typed is read as a finite number, or as none, exactly if it does not overflow. -/
theorem isFinite_ofTyped_iff {t : Text} :
    (∀ x, ofTyped t = .number x → x.isFinite = true) ↔ ¬ Overflows t := by
  constructor
  · intro hall hover
    obtain ⟨x, hx⟩ := ofTyped_of_overflows hover
    exact (number?_spec (ofTyped_eq_number_iff.mp hx)).2.mp (hall x hx) hover
  · intro hnot x hx
    exact (number?_spec (ofTyped_eq_number_iff.mp hx)).2.mpr hnot

end Setting

/-! ## Typed fields -/

namespace Fields

theorem mem_ofTyped_iff {typed : Fields Text} {e : Text × Setting} :
    e ∈ typed.ofTyped ↔ ∃ t, (e.1, t) ∈ typed ∧ e.1 ≠ reservedKey ∧ e.2 = Setting.ofTyped t := by
  obtain ⟨key, s⟩ := e
  unfold ofTyped mapValues withoutReserved
  simp only [List.mem_map, List.mem_filter, Prod.mk.injEq, Prod.exists, bne_iff_ne, ne_eq]
  constructor
  · rintro ⟨key, t, ⟨hmem, hne⟩, rfl, rfl⟩
    exact ⟨t, hmem, hne, rfl⟩
  · rintro ⟨t, hmem, hne, rfl⟩
    exact ⟨key, t, ⟨hmem, hne⟩, rfl, rfl⟩

theorem Canonical.ofTyped {typed : Fields Text} (h : typed.Canonical) :
    typed.ofTyped.Canonical := by
  refine h.of_keys ?_
  rw [Fields.ofTyped, keys_mapValues]
  exact List.filter_sublist.map _

end Fields

/-- **What the text of typed fields stands for, and when it is what was typed.** -/
theorem Setting.parse?_typed {typed : Fields Text} (horder : typed.Canonical) :
    Json.parse? (fieldsToJson typed.ofTyped).render = some (carriedToJson typed.ofTyped) ∧
      (carriedToJson typed.ofTyped = fieldsToJson typed.ofTyped ↔
        ∀ e ∈ typed, e.1 ≠ Fields.reservedKey → ¬ Overflows e.2) := by
  constructor
  · refine parse?_render_fieldsToJson horder.ofTyped ?_
    intro e he hzero
    obtain ⟨t, -, -, ht⟩ := Fields.mem_ofTyped_iff.mp he
    exact (number?_spec (ofTyped_eq_number_iff.mp (ht.symm.trans hzero))).1 rfl
  · rw [carriedToJson_eq_iff]
    constructor
    · intro hall e he hkey
      rw [← isFinite_ofTyped_iff]
      exact hall (e.1, ofTyped e.2) (Fields.mem_ofTyped_iff.mpr ⟨e.2, he, hkey, rfl⟩)
    · intro hall e he
      obtain ⟨t, hmem, hkey, ht⟩ := Fields.mem_ofTyped_iff.mp he
      rw [ht, isFinite_ofTyped_iff]
      exact hall _ hmem hkey

/-! ## The request -/

namespace Session

/-- **The request that a save makes.**  There is one unless no address can hold the module's name.
Its body stands for what was typed, with nothing in place of a number that is not finite; so it
carries what was typed exactly if no text overflows. -/
theorem update_carries (s : Session) (admin : Admin) (replies : List Reply) (operation : Nat)
    (name : Text) (pairs : List (Text × Text)) (r : Record) :
    ∃ body : Text,
      (handle { s with service := .admin admin replies } operation
          (.save name (Fields.ofPairs pairs)) r).2.requests =
        r.requests ++ (Text.Percent.segment? name).toList.map (fun segment =>
          { url := admin.base ++ "/api/update/" ++ segment
            method := some "POST"
            headers := admin.headers [("Content-Type", "application/json")]
            body := some body }) ∧
      Json.parse? body = some (Setting.carriedToJson (Fields.ofPairs pairs).ofTyped) ∧
      (Json.parse? body = some (Setting.fieldsToJson (Fields.ofPairs pairs).ofTyped) ↔
        ∀ e ∈ Fields.ofPairs pairs, e.1 ≠ Fields.reservedKey → ¬ Setting.Overflows e.2) := by
  obtain ⟨hparse, hsame⟩ := Setting.parse?_typed (Fields.canonical_ofPairs pairs)
  refine ⟨(Setting.fieldsToJson (Fields.ofPairs pairs).ofTyped).render, ?_, hparse, ?_⟩
  · show r.requests ++ (admin.updateRequest? name _).toList = _
    rw [Admin.updateRequest?, Option.toList_map]
  · rw [hparse, Option.some.injEq, hsame]

/-- A text whose digits spell a number beyond the floats. -/
def beyond : Text := ⟨unit '1' :: Decimal.zeros 309 ++ [unit '.', unit '5']⟩

/-- A session that has just begun, with an admin service. -/
def fresh : Session := start .default ⟨800, 600⟩ (.admin (Admin.ofUrl "http://admin" none) [])

/-- A number that was typed is not in the request. -/
theorem update_drops_number :
    Fields.ofTyped [(Text.ofString "size", beyond)] =
        [(Text.ofString "size", .number infinity)] ∧
      (fresh.handle 0 (.save "a" [(Text.ofString "size", beyond)]) .empty).2.requests =
        [{ url := "http://admin/api/update/a"
           method := some "POST"
           headers := [("Content-Type", "application/json")]
           body := some "\x7b\"size\":null\x7d" }] ∧
      Json.parse? "\x7b\"size\":null\x7d" =
        some (.object [(Text.ofString "size", .null)]) ∧
      Json.parse? "\x7b\"size\":null\x7d" ≠
        some (Setting.fieldsToJson (Fields.ofTyped [(Text.ofString "size", beyond)])) := by
  have htyped : Fields.ofTyped [(Text.ofString "size", beyond)] =
      [(Text.ofString "size", .number infinity)] := by decide +kernel
  have hbody : (Setting.fieldsToJson (Fields.ofTyped [(Text.ofString "size", beyond)])).render =
      "\x7b\"size\":null\x7d" := by decide +kernel
  have hinfinite : ¬ infinity.isFinite = true := by decide +kernel
  have hnull : Setting.carried (.number infinity) = .null := by
    rw [Setting.carried, if_neg hinfinite]
  have hparse : Json.parse? "\x7b\"size\":null\x7d" =
      some (.object [(Text.ofString "size", .null)]) := by
    have horder : Fields.Canonical [(Text.ofString "size", beyond)] := List.pairwise_singleton _ _
    rw [← hbody, (Setting.parse?_typed horder).1, htyped, ← hnull]
    rfl
  refine ⟨htyped, by decide +kernel, hparse, ?_⟩
  rw [hparse, htyped]
  nofun

end Session

end Honeycomb
