import Honeycomb.Proofs.Controller.Queue

/-!
# A superseded retry never acts

Retries stay in the queue across recomputes, refreshes, failures and any time spent hidden, and fall
due in any order.  Which of them may still draw is told by their generation alone.

* `Host.live` — the retries in the queue that are of the current generation.
* `RetryInv` — no retry is ahead of the controller, at most one is live, none is while the
  controller is hidden or has no modules, and so no retry that took effect ran in such a state.
* `RetryInv.still_of_hidden` — what asked a hidden controller for a layout drew nothing.
* `Told.void_of_superseded` — what was put off before a recompute or before the controller was
  hidden does nothing when it is due afterwards.
* `superseded_retry_never_acts` — all of this for every run; and a hidden controller draws nothing
  and keeps its layout until it is activated, whatever is recomputed, resized, due or fetched.
-/

set_option autoImplicit false

namespace Honeycomb

/-- The retries in the queue that are of the current generation. -/
def Host.live (h : Host) : List Retry :=
  h.queue.filter fun r => r.generation == h.controller.generation

namespace Controller

variable {cfg : Config} {surface : Except Failure (Viewport Float)} {c : Controller}

/-- While a controller is hidden, nothing that asks for a layout draws, or changes the layout. -/
theorem still_step_of_hidden {event : Event} (hidden : c.active = false)
    (still : event ≠ .activate) (asks : event.asksForLayout = true)
    (stale : ∀ r, event = .retry r → r.generation ≠ c.generation) :
    (c.step cfg surface event).effects.filterMap Effect.view? = [] ∧
      (c.step cfg surface event).controller.layout = c.layout := by
  have h := step_spec cfg surface c event
  generalize c.step cfg surface event = o at h ⊢
  cases h with
  | retried due => exact absurd due (stale _ rfl)
  | redrawn brought shown =>
    rcases shown with active | activate
    · rw [hidden] at active
      cases active
    · exact absurd activate still
  | clicked => cases asks
  | dismissed => cases asks
  | failed ended =>
    rw [ended] at asks
    cases asks
  | _ => exact ⟨rfl, rfl⟩

end Controller

namespace Host

variable {h rest : Host} {event : Event}

/-- **At most one retry stays live**, whatever the controller is told of. -/
theorem live_absorb {cfg : Controller.Config} {surface : Except Failure (Viewport Float)}
    (hq : h.QueueInv) (hone : h.live.length ≤ 1) (ho : h.Offers event rest) :
    (rest.absorb (h.controller.step cfg surface event)).live.length ≤ 1 := by
  have hnew := Controller.retries_step cfg surface h.controller event
  have hgen := Controller.generation_step cfg surface h.controller event
  generalize h.controller.step cfg surface event = o at hnew hgen ⊢
  have hlive : (rest.absorb o).live =
      (rest.queue.filter fun r => r.generation == o.controller.generation) ++
        ((o.effects.filterMap Effect.retry?).filter fun r =>
          r.generation == o.controller.generation) := List.filter_append ..
  have hfresh : ((o.effects.filterMap Effect.retry?).filter fun r =>
      r.generation == o.controller.generation).length ≤ 1 := by
    refine Nat.le_trans (List.length_filter_le _ _) ?_
    rcases hnew with hnone | ⟨r, hone, -⟩
    · rw [hnone]
      exact Nat.zero_le 1
    · rw [hone]
      exact Nat.le_refl 1
  rw [hlive, List.length_append]
  cases hs : h.controller.supersedes event with
  | true =>
    -- the generation is new, so that nothing in the old queue is of it
    have hold : (rest.queue.filter fun r => r.generation == o.controller.generation) = [] := by
      rw [List.filter_eq_nil_iff]
      intro r hr
      have := hq.bounded r (ho.queue_sublist.subset hr)
      rw [hgen, hs]
      simp
      omega
    rw [hold, List.length_nil]
    omega
  | false =>
    simp only [hs, Bool.false_eq_true, if_false] at hgen
    by_cases hdue : ∃ r, event = .retry r ∧ r.generation = h.controller.generation
    · -- the live retry is the one that is due, and makes room for another
      obtain ⟨r, rfl, due⟩ := hdue
      have hperm := (ho.queue_perm.filter fun r =>
        r.generation == h.controller.generation).length_eq
      rw [List.filter_cons_of_pos (by simpa using due), List.length_cons] at hperm
      rw [Host.live] at hone
      rw [hgen] at hfresh ⊢
      omega
    · have hnil : o.effects.filterMap Effect.retry? = [] := by
        rcases hnew with hnone | ⟨-, -, -, -, ⟨hyes, -⟩ | due⟩
        · exact hnone
        · rw [hs] at hyes
          cases hyes
        · exact absurd due hdue
      have hsub := (ho.queue_sublist.filter fun r =>
        r.generation == h.controller.generation).length_le
      rw [Host.live] at hone
      rw [hgen, hnil, List.filter_nil, List.length_nil]
      omega

end Host

/-- What the retries know of the controller: those in the queue, and those that were due. -/
structure RetryInv (x : History) : Prop where
  queue : x.host.QueueInv
  single : x.host.live.length ≤ 1
  due : ∀ t ∈ x.told, ∀ r, t.event = .retry r → r.generation = t.before.generation →
    t.before.modules ≠ [] ∧ t.before.active = true

theorem History.retryInv_run (cfg : Controller.Config) (turns : List (Turn Event)) :
    RetryInv (run cfg turns) := by
  refine run_induction (P := RetryInv) ⟨.start, Nat.zero_le 1, by simp [start]⟩ ?_ ?_ turns
  · intro x i f ending hf hx _ _
    exact ⟨⟨hx.queue.bounded, hx.queue.live⟩, hx.single, hx.due⟩
  · intro x surface event rest hx ho
    refine ⟨hx.queue.tell ho, Host.live_absorb hx.queue hx.single ho, ?_⟩
    intro t ht r he due
    rcases List.mem_append.mp ht with ht | ht
    · exact hx.due t ht r he due
    · obtain rfl := List.mem_singleton.mp ht
      cases he
      exact hx.queue.live r ho.retry_mem due

/-- Whatever asked a hidden controller for a layout drew nothing and kept the layout, except for the
activation itself: no retry that was due there was of the current generation. -/
theorem RetryInv.still_of_hidden {cfg : Controller.Config} {x : History} (hx : RetryInv x)
    {t : Told} (ht : t ∈ x.told) (hidden : t.before.active = false) (still : t.event ≠ .activate)
    (asks : t.event.asksForLayout = true) :
    t.drawn cfg = [] ∧ (t.after cfg).layout = t.before.layout := by
  refine Controller.still_step_of_hidden hidden still asks ?_
  intro r hr due
  rw [(hx.due t ht r hr due).2] at hidden
  cases hidden

namespace Leads

variable {cfg : Controller.Config} {c c' : Controller} {told : List Told}

/-- Generations never go back. -/
theorem generation_le (h : Leads cfg c told c') : c.generation ≤ c'.generation := by
  apply h.keeps (P := fun d => c.generation ≤ d.generation)
  · intro t _ hle
    exact Nat.le_trans hle (Controller.generation_le_step cfg t.surface t.before t.event)
  · exact Nat.le_refl _

/-- A hidden controller stays hidden until it is activated. -/
theorem hidden (h : Leads cfg c told c') (still : ∀ t ∈ told, t.event ≠ .activate)
    (hc : c.active = false) : c'.active = false := by
  apply h.keeps (P := fun d => d.active = false)
  · intro t ht hd
    exact Controller.active_step hd (still t ht)
  · exact hc

end Leads

/-- **What was put off before is void after a recompute, or after the controller was hidden.** -/
theorem Told.void_of_superseded {cfg : Controller.Config} {c c' : Controller}
    {past mid later : List Told} {s t u : Told} {r : Retry}
    (h : Leads cfg c (past ++ t :: (mid ++ u :: later)) c') (hs : s ∈ past)
    (hr : .schedule r ∈ (s.outcome cfg).effects) (ht : t.before.supersedes t.event = true)
    (hu : u.event = .retry r) : u.outcome cfg = u.before.idle := by
  obtain ⟨hpast, hrest⟩ := h.split
  obtain ⟨before, after, rfl⟩ := List.append_of_mem hs
  have hfirst : r.generation = (s.after cfg).generation := by
    have hmem : r ∈ (s.outcome cfg).effects.filterMap Effect.retry? :=
      List.mem_filterMap.mpr ⟨_, hr, rfl⟩
    rcases Controller.retries_step cfg s.surface s.before s.event with hnone | ⟨r', hone, hg, -⟩
    · rw [Told.outcome, hnone] at hmem
      cases hmem
    · rw [Told.outcome, hone, List.mem_singleton] at hmem
      rw [hmem]
      exact hg
  have h₁ := hpast.split.2.generation_le
  have h₂ : (t.after cfg).generation = t.before.generation + 1 := by
    rw [Told.after, Told.outcome, Controller.generation_step, if_pos ht]
  have h₃ := hrest.split.1.generation_le
  rw [Told.outcome, hu]
  exact Controller.step_retry_of_stale (by omega)

/-- **A superseded retry never acts.**  In every state that a run comes to, no retry in the queue is
ahead of the controller, at most one is of the current generation, none is while the controller is
hidden or has no modules, and one of an older generation does nothing at all when it is run.  So
nothing that was put off before a recompute or before the controller was hidden ever does anything
later; and from being hidden up to the next activation, no recompute, resize, retry or refresh that
succeeds draws a view or changes the layout. -/
theorem superseded_retry_never_acts (cfg : Controller.Config) (turns : List (Turn Event)) :
    (∀ r ∈ (History.run cfg turns).host.queue,
        r.generation ≤ (History.run cfg turns).host.controller.generation) ∧
      (History.run cfg turns).host.live.length ≤ 1 ∧
      ((History.run cfg turns).host.controller.active = false ∨
          (History.run cfg turns).host.controller.modules = [] →
        (History.run cfg turns).host.live = []) ∧
      (∀ r surface, r.generation < (History.run cfg turns).host.controller.generation →
        (History.run cfg turns).host.controller.step cfg surface (.retry r) =
          (History.run cfg turns).host.controller.idle) ∧
      (∀ (past mid later : List Told) (t u : Told) (r : Retry),
        (History.run cfg turns).told = past ++ t :: (mid ++ u :: later) →
        t.before.supersedes t.event = true →
        (∃ s ∈ past, .schedule r ∈ (s.outcome cfg).effects) → u.event = .retry r →
          u.outcome cfg = u.before.idle) ∧
      (∀ (past mid later : List Told) (t u : Told),
        (History.run cfg turns).told = past ++ t :: (mid ++ u :: later) →
        t.event = .deactivate → (∀ s ∈ mid, s.event ≠ .activate) → u.event ≠ .activate →
        u.event.asksForLayout = true ∨ u.event = .refresh →
          u.drawn cfg = [] ∧ (u.after cfg).layout = u.before.layout) := by
  have hx := History.retryInv_run cfg turns
  have hleads := History.leads_run cfg turns
  generalize History.run cfg turns = x at hx hleads ⊢
  refine ⟨hx.queue.bounded, hx.single, ?_, ?_, ?_, ?_⟩
  · intro hoff
    rw [Host.live, List.filter_eq_nil_iff]
    intro r hr hlive
    obtain ⟨hm, ha⟩ := hx.queue.live r hr (by simpa using hlive)
    rcases hoff with h | h
    · rw [ha] at h
      cases h
    · exact hm h
  · intro r surface hlt
    exact Controller.step_retry_of_stale (Nat.ne_of_lt hlt)
  · intro past mid later t u r hsplit ht hscheduled hu
    rw [hsplit] at hleads
    obtain ⟨s, hs, hr⟩ := hscheduled
    exact Told.void_of_superseded hleads hs hr ht hu
  · intro past mid later t u hsplit ht hmid hstill hasks
    have hmem : u ∈ x.told := by simp [hsplit]
    rw [hsplit] at hleads
    have hafter : (t.after cfg).active = false := by
      rw [Told.after, Told.outcome, ht]
      rfl
    have hhidden := hleads.split.2.split.1.hidden hmid hafter
    rcases hasks with hasks | hrefresh
    · exact hx.still_of_hidden hmem hhidden hstill hasks
    · rw [Told.drawn, Told.after, Told.outcome, hrefresh]
      exact ⟨rfl, rfl⟩

/-- "a" waits for a surface with a size, and its retry is due only once "b" was drawn. -/
def retryAfterRecompute : List (Turn Event) :=
  [⟨.ok ⟨0, 0⟩, .operate (.recompute [⟨"a", true, false, []⟩])⟩,
   ⟨.ok ⟨1200, 800⟩, .operate (.recompute [⟨"b", true, false, []⟩])⟩,
   ⟨.ok ⟨1200, 800⟩, .retry 0⟩]

example : ((History.run .default retryAfterRecompute).told.map fun t =>
    (t.drawn .default).length) = [1, 1, 0] := by decide +kernel

end Honeycomb
