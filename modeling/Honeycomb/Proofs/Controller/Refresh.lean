import Mathlib.Data.List.Perm.Basic
import Honeycomb.Proofs.Controller.Step

/-!
# Only the latest refresh takes effect

Any number of fetches may be under way at once and end in any order, with success or failure, and
refreshes are started from outside as well as by edits that come to their end.

* `Host.fetches` — the refreshes whose fetch is under way; `History.started` — all that were
  started; `History.effective` — those whose end changed something, in the order in which they did.
* `RefreshInv` — refreshes are numbered from one in the order in which they start, no fetch is under
  way twice, and what took effect is no longer under way.
* `latest_refresh_applies` — a fetch that ends changes something exactly if no later refresh was
  started by then; the refreshes that take effect come in ascending order.
-/

set_option autoImplicit false

namespace Honeycomb

/-- The refresh that a call fetches modules for. -/
def Call.refresh? : Call → Option Nat
  | .fetch refresh => some refresh
  | _ => none

/-- The refreshes whose fetch is under way. -/
def Host.fetches (h : Host) : List Nat := h.flights.filterMap fun f => f.call.refresh?

namespace Told

/-- The refreshes that were started, which is at most one. -/
def started (cfg : Controller.Config) (t : Told) : List Nat :=
  ((t.outcome cfg).effects.filterMap Effect.call?).filterMap Call.refresh?

/-- The refresh whose end the controller was told of, if that changed anything or had any effect. -/
def effective? (cfg : Controller.Config) (t : Told) : Option Nat :=
  match t.event with
  | .fetched refresh _ => if t.outcome cfg = t.before.idle then none else some refresh
  | _ => none

end Told

/-- The refreshes that were started in some of what a controller was told. -/
def startedIn (cfg : Controller.Config) (told : List Told) : List Nat :=
  told.flatMap (Told.started cfg)

namespace History

/-- The refreshes that were started, in order. -/
def started (cfg : Controller.Config) (x : History) : List Nat := startedIn cfg x.told

/-- The refreshes that took effect, in order. -/
def effective (cfg : Controller.Config) (x : History) : List Nat :=
  x.told.filterMap (Told.effective? cfg)

end History

namespace Controller

variable {cfg : Config} {surface : Except Failure (Viewport Float)} {c : Controller}

/-- **The calls of a step**: none, an edit that is asked for, or the fetch of a refresh, which takes
the next number. -/
theorem step_calls (cfg : Config) (surface : Except Failure (Viewport Float)) (c : Controller)
    (event : Event) :
    ((c.step cfg surface event).effects.filterMap Effect.call? = [] ∧
        (c.step cfg surface event).controller.refreshes = c.refreshes) ∨
      (∃ call, (c.step cfg surface event).effects.filterMap Effect.call? = [call] ∧
        call.refresh? = none ∧ (c.step cfg surface event).controller = c) ∨
      ((c.step cfg surface event).effects.filterMap Effect.call? = [.fetch (c.refreshes + 1)] ∧
        (c.step cfg surface event).controller.refreshes = c.refreshes + 1 ∧
        ∀ refresh result, event ≠ .fetched refresh result) := by
  have h := step_spec cfg surface c event
  generalize c.step cfg surface event = o at h ⊢
  cases h with
  | retried => exact .inl ⟨attempt_calls _, (attempt_frame cfg surface c _).2.2.2⟩
  | redrawn => exact .inl ⟨attempt_calls _, (attempt_frame cfg surface _ _).2.2.2⟩
  | toggle name => exact .inr (.inl ⟨_, rfl, rfl, rfl⟩)
  | save name typed => exact .inr (.inl ⟨_, rfl, rfl, rfl⟩)
  | refreshed starts => exact .inr (.inr ⟨rfl, rfl, by rintro _ _ rfl; cases starts⟩)
  | declined starts => exact .inr (.inr ⟨rfl, rfl, by rintro _ _ rfl; cases starts⟩)
  | _ => exact .inl ⟨rfl, rfl⟩

/-- **The end of a fetch changes something exactly if it is the latest one.** -/
theorem fetched_ne_idle_iff {refresh : Nat} {result : Except Failure (List Module)} :
    c.fetched cfg surface refresh result ≠ c.idle ↔ refresh = c.refreshes := by
  unfold fetched
  constructor
  · intro h
    by_contra hne
    exact h (if_pos hne)
  · rintro rfl h
    rw [if_neg (by simp)] at h
    cases result with
    | error failure => cases congrArg Outcome.effects h
    | ok modules =>
      have hg := generation_step cfg surface c (.recompute modules)
      rw [step, show c.recompute cfg surface modules = c.idle from h] at hg
      change c.generation = c.generation + 1 at hg
      omega

end Controller

namespace Host

theorem Offers.fetches_sublist {h rest : Host} {event : Event} (ho : h.Offers event rest) :
    rest.fetches.Sublist h.fetches := by
  cases ho with
  | operation => exact List.Sublist.refl _
  | retry => exact List.Sublist.refl _
  | settle => exact (List.eraseIdx_sublist _ _).filterMap _

/-- A fetch that the controller is told the end of was under way. -/
theorem Offers.fetches_perm {h rest : Host} {refresh : Nat}
    {result : Except Failure (List Module)} (ho : h.Offers (.fetched refresh result) rest) :
    h.fetches.Perm (refresh :: rest.fetches) := by
  cases ho with
  | operation outside => cases outside
  | @settle i f _ underway answered =>
    have hf := f.ends _ answered
    obtain ⟨hi, hget⟩ := List.getElem?_eq_some_iff.mp underway
    have hcall : f.call.refresh? = some refresh := by
      cases hc : f.call with
      | fetch number =>
        rw [hc] at hf
        rw [Call.refresh?, show number = refresh by simpa [Call.endsIn] using hf]
      | _ => rw [hc] at hf; cases hf
    have hp := (List.getElem_cons_eraseIdx_perm hi).filterMap fun f : Flight => f.call.refresh?
    rw [hget, List.filterMap_cons, hcall] at hp
    exact hp.symm

theorem fetches_answered {h : Host} {i : Nat} {f : Flight} {ending : Event}
    (hf : f.call.endsIn ending = true) (hi : h.flights[i]? = some f) :
    (h.answered i f ending hf).fetches = h.fetches := by
  obtain ⟨hlt, hget⟩ := List.getElem?_eq_some_iff.mp hi
  have hlt' : i < (h.flights.map Flight.call).length := by simpa using hlt
  have hcall : (h.flights.map Flight.call)[i] = f.call := by rw [List.getElem_map, hget]
  have hcalls : (h.flights.set i (f.answered ending hf)).map Flight.call =
      h.flights.map Flight.call := by
    rw [List.map_set]
    show (h.flights.map Flight.call).set i f.call = _
    rw [← hcall, List.set_getElem_self]
  have hfetches := congrArg (List.filterMap Call.refresh?) hcalls
  rw [List.filterMap_map, List.filterMap_map] at hfetches
  exact hfetches

theorem fetches_absorb (rest : Host) (o : Controller.Outcome) :
    (rest.absorb o).fetches =
      rest.fetches ++ (o.effects.filterMap Effect.call?).filterMap Call.refresh? := by
  simp only [fetches, absorb, List.filterMap_append, List.filterMap_map]
  rfl

end Host

namespace Told

variable {cfg : Controller.Config} {t : Told}

/-- What is started takes the next number, and the end of a fetch starts nothing. -/
theorem started_cases (cfg : Controller.Config) (t : Told) :
    (t.started cfg = [] ∧ (t.after cfg).refreshes = t.before.refreshes) ∨
      (t.started cfg = [t.before.refreshes + 1] ∧
        (t.after cfg).refreshes = t.before.refreshes + 1 ∧
        ∀ refresh result, t.event ≠ .fetched refresh result) := by
  unfold started after outcome
  rcases Controller.step_calls cfg t.surface t.before t.event with
    ⟨h, hr⟩ | ⟨call, h, hc, hr⟩ | ⟨h, hr⟩
  · exact .inl ⟨by rw [h]; rfl, hr⟩
  · exact .inl ⟨by rw [h, List.filterMap_cons, hc]; rfl, by rw [hr]⟩
  · exact .inr ⟨by rw [h]; rfl, hr⟩

theorem effective?_eq_some_iff {refresh : Nat} :
    t.effective? cfg = some refresh ↔
      (∃ result, t.event = .fetched refresh result) ∧ t.outcome cfg ≠ t.before.idle := by
  unfold effective?
  split
  · rename_i number result he
    rw [he]
    split
    · rename_i h
      simp [h]
    · rename_i h
      simp [h]
  · rename_i he
    refine ⟨nofun, ?_⟩
    rintro ⟨⟨result, h⟩, -⟩
    exact absurd h (he refresh result)

end Told

/-- If something holds wherever a list is split, and of the whole list with one more element, it
holds wherever the longer list is split. -/
theorem forall_split_concat {α : Type} {R : List α → α → Prop} {l : List α} {a : α}
    (hl : ∀ past t later, l = past ++ t :: later → R past t) (ha : R l a) :
    ∀ past t later, l ++ [a] = past ++ t :: later → R past t := by
  intro past t later h
  rcases List.eq_nil_or_concat later with rfl | ⟨init, last, rfl⟩
  · obtain ⟨rfl, hone⟩ := List.append_inj' h rfl
    cases hone
    exact ha
  · rw [List.concat_eq_append, show past ++ t :: (init ++ [last]) = (past ++ t :: init) ++ [last] by
      simp] at h
    exact hl past t init (List.append_inj' h rfl).1

/-- Refreshes are numbered in the order in which they start; each ends once at most, and those that
took effect did so in order. -/
structure RefreshInv (cfg : Controller.Config) (x : History) : Prop where
  numbered : x.started cfg = List.range' 1 x.host.controller.refreshes
  once : x.host.fetches.Nodup
  known : ∀ n ∈ x.host.fetches, n ∈ x.started cfg
  ascending : (x.effective cfg).Pairwise (· < ·)
  ended : ∀ n ∈ x.effective cfg, n ∈ x.started cfg ∧ n ∉ x.host.fetches
  settled : ∀ past t later, x.told = past ++ t :: later →
    startedIn cfg past = List.range' 1 t.before.refreshes ∧
      ∀ refresh result, t.event = .fetched refresh result → refresh ∈ startedIn cfg past

namespace RefreshInv

variable {cfg : Controller.Config}

theorem start : RefreshInv cfg .start := ⟨rfl, .nil, nofun, .nil, nofun, by simp [History.start]⟩

theorem answered {x : History} (hx : RefreshInv cfg x) {i : Nat} {f : Flight} {ending : Event}
    (hf : f.call.endsIn ending = true) (hi : x.host.flights[i]? = some f) :
    RefreshInv cfg { x with host := x.host.answered i f ending hf } := by
  have h := Host.fetches_answered hf hi
  exact ⟨hx.numbered, by rw [h]; exact hx.once, by rw [h]; exact hx.known, hx.ascending,
    by rw [h]; exact hx.ended, hx.settled⟩

variable {x : History} {surface : Except Failure (Viewport Float)} {event : Event} {rest : Host}

theorem mem_started_iff (hx : RefreshInv cfg x) {n : Nat} :
    n ∈ x.started cfg ↔ 1 ≤ n ∧ n ≤ x.host.controller.refreshes := by
  rw [hx.numbered, List.mem_range'_1]
  omega

/-- What takes effect is the latest refresh, and its fetch was still under way. -/
theorem of_effective? {t : Told} (hx : RefreshInv cfg x) (hb : t.before = x.host.controller)
    (ho : x.host.Offers t.event rest) {n : Nat} (hn : t.effective? cfg = some n) :
    n = x.host.controller.refreshes ∧ n ∈ x.started cfg ∧ n ∈ x.host.fetches ∧
      n ∉ rest.fetches := by
  obtain ⟨⟨result, hev⟩, hne⟩ := Told.effective?_eq_some_iff.mp hn
  rw [Told.outcome, hev] at hne
  rw [hev] at ho
  have hperm := ho.fetches_perm
  have hmem : n ∈ x.host.fetches := hperm.symm.subset List.mem_cons_self
  have hlatest := Controller.fetched_ne_idle_iff.mp hne
  rw [hb] at hlatest
  exact ⟨hlatest, hx.known n hmem, hmem, (List.nodup_cons.mp (hperm.nodup_iff.mp hx.once)).1⟩

/-- A refresh that starts is none of those that were started before. -/
theorem not_mem_started {t : Told} (hx : RefreshInv cfg x) (hb : t.before = x.host.controller)
    {n : Nat} (hn : n ∈ x.started cfg) : n ∉ t.started cfg := by
  intro h
  have hle := (hx.mem_started_iff.mp hn).2
  rcases Told.started_cases cfg t with ⟨hs, -⟩ | ⟨hs, -, -⟩
  · rw [hs] at h
    cases h
  · rw [hs, List.mem_singleton, hb] at h
    omega

theorem tell (hx : RefreshInv cfg x) (ho : x.host.Offers event rest) :
    RefreshInv cfg (x.tell cfg surface event rest) := by
  generalize ht : (⟨x.host.controller, surface, event⟩ : Told) = t
  have hb : t.before = x.host.controller := by rw [← ht]
  have he : t.event = event := by rw [← ht]
  have hcontroller : (x.tell cfg surface event rest).host.controller = t.after cfg := by
    rw [← ht]; rfl
  have hfetches : (x.tell cfg surface event rest).host.fetches = rest.fetches ++ t.started cfg := by
    rw [← ht]; exact Host.fetches_absorb rest _
  have htold : (x.tell cfg surface event rest).told = x.told ++ [t] := by rw [← ht]; rfl
  have hstarted : (x.tell cfg surface event rest).started cfg = x.started cfg ++ t.started cfg := by
    simp [History.started, startedIn, htold]
  have heffective : (x.tell cfg surface event rest).effective cfg =
      x.effective cfg ++ (t.effective? cfg).toList := by
    rw [History.effective, htold, List.filterMap_append, History.effective]
    cases h : t.effective? cfg <;> simp [h]
  have hsub := ho.fetches_sublist
  rw [← he] at ho
  refine ⟨?_, ?_, ?_, ?_, ?_, ?_⟩
  · -- the next refresh takes the next number
    rw [hstarted, hcontroller, hx.numbered, ← hb]
    rcases Told.started_cases cfg t with ⟨h, hr⟩ | ⟨h, hr, -⟩
    · rw [h, hr, List.append_nil]
    · rw [h, hr, List.range'_1_concat, Nat.add_comm 1]
  · rw [hfetches, List.nodup_append]
    refine ⟨hx.once.sublist hsub, ?_, ?_⟩
    · rcases Told.started_cases cfg t with ⟨h, -⟩ | ⟨h, -, -⟩ <;> rw [h] <;> simp
    · rintro n hn m hm rfl
      exact hx.not_mem_started hb (hx.known n (hsub.subset hn)) hm
  · intro n hn
    rw [hfetches] at hn
    rw [hstarted]
    rcases List.mem_append.mp hn with hn | hn
    · exact List.mem_append_left _ (hx.known n (hsub.subset hn))
    · exact List.mem_append_right _ hn
  · rw [heffective, List.pairwise_append]
    refine ⟨hx.ascending, ?_, ?_⟩
    · cases t.effective? cfg <;> simp
    · intro m hm n hn
      obtain ⟨hlatest, -, hfetch, -⟩ := hx.of_effective? hb ho (Option.mem_toList.mp hn)
      obtain ⟨hms, hmf⟩ := hx.ended m hm
      have hle := (hx.mem_started_iff.mp hms).2
      have hne : m ≠ n := by
        rintro rfl
        exact hmf hfetch
      omega
  · intro n hn
    rw [heffective, List.mem_append] at hn
    rw [hstarted, hfetches, List.mem_append, List.mem_append, not_or]
    rcases hn with hn | hn
    · obtain ⟨hs, hf⟩ := hx.ended n hn
      exact ⟨.inl hs, fun h => hf (hsub.subset h), hx.not_mem_started hb hs⟩
    · obtain ⟨-, hs, -, hf⟩ := hx.of_effective? hb ho (Option.mem_toList.mp hn)
      exact ⟨.inl hs, hf, hx.not_mem_started hb hs⟩
  · rw [htold]
    refine forall_split_concat hx.settled ⟨by rw [hb]; exact hx.numbered, ?_⟩
    intro refresh result hev
    rw [hev] at ho
    exact hx.known refresh (ho.fetches_perm.symm.subset List.mem_cons_self)

end RefreshInv

theorem History.refreshInv_run (cfg : Controller.Config) (turns : List (Turn Event)) :
    RefreshInv cfg (run cfg turns) :=
  run_induction .start (fun _ _ _ _ hf hx hi _ => hx.answered hf hi)
    (fun _ _ _ _ hx ho => hx.tell ho) turns

/-- **Only the latest refresh takes effect.**  In every run the refreshes are numbered from one in
the order in which they start.  When the controller is told of the end of a fetch, the refresh was
started before; nothing at all comes of it if a later refresh was started by then, and otherwise its
modules are drawn, or its failure is shown.  So refreshes take effect in ascending order. -/
theorem latest_refresh_applies (cfg : Controller.Config) (turns : List (Turn Event)) :
    (∃ count, (History.run cfg turns).started cfg = List.range' 1 count) ∧
      (∀ past t later refresh result, (History.run cfg turns).told = past ++ t :: later →
        t.event = .fetched refresh result →
          refresh ∈ startedIn cfg past ∧
          ((∃ newer ∈ startedIn cfg past, refresh < newer) → t.outcome cfg = t.before.idle) ∧
          ((¬ ∃ newer ∈ startedIn cfg past, refresh < newer) →
            t.outcome cfg ≠ t.before.idle ∧
            t.outcome cfg = match result with
              | .ok modules => t.before.step cfg t.surface (.recompute modules)
              | .error failure => t.before.fail "Failed to load modules" failure)) ∧
      ((History.run cfg turns).effective cfg).Pairwise (· < ·) := by
  have hx := History.refreshInv_run cfg turns
  refine ⟨⟨_, hx.numbered⟩, ?_, hx.ascending⟩
  intro past t later refresh result hsplit hev
  obtain ⟨hpast, hknown⟩ := hx.settled past t later hsplit
  have hmem := hknown refresh result hev
  have hout : t.outcome cfg = t.before.fetched cfg t.surface refresh result := by
    rw [Told.outcome, hev, Controller.step]
  have hlatest : (¬ ∃ newer ∈ startedIn cfg past, refresh < newer) ↔
      refresh = t.before.refreshes := by
    rw [hpast, List.mem_range'_1] at hmem
    simp only [hpast, List.mem_range'_1, not_exists, not_and, Nat.not_lt]
    refine ⟨fun h => ?_, fun h newer hn => by omega⟩
    have := h t.before.refreshes (by omega)
    omega
  refine ⟨hmem, ?_, ?_⟩
  · intro hnewer
    by_contra hne
    rw [hout] at hne
    exact hlatest.mpr (Controller.fetched_ne_idle_iff.mp hne) hnewer
  · intro hnone
    have hr := hlatest.mp hnone
    refine ⟨by rw [hout]; exact Controller.fetched_ne_idle_iff.mpr hr, ?_⟩
    rw [hout, Controller.fetched.eq_def, if_neg (by simpa using hr)]
    cases result <;> rfl

end Honeycomb
