import Mathlib.Algebra.BigOperators.Group.List.Basic
import Mathlib.Algebra.GroupWithZero.Nat
import Honeycomb.Proofs.Controller.Supersession

/-!
# Waiting for a surface comes to an end

An attempt to draw on a surface that is too small is put off until the host draws next.  Attempts
of one generation belong together, whatever else happens between them.

* `Controller.attempts?` — the attempt that an event has the controller make; `attempts_spec` says
  what comes of it.
* `Told.triesFor` — an attempt of a generation took effect; `viewsOf` — what the attempts of a
  generation drew.
* `Waited`, `Told.Ends` — some attempts that were put off one after the other, and an attempt that
  is not put off any more.
* `WaitInv` — the attempts of every generation were put off some times, and then at most one ended
  the waiting; a retry of the current generation goes on where they stand.
* `History.RunsOut` — however the queued retries are run, none is left after so many.
* `waiting_is_bounded` — both for every run.
-/

set_option autoImplicit false

namespace Honeycomb

namespace Controller

/-- The attempt to draw that an event has the controller make: the first one of a new generation, or
a retry. -/
def attempts? (c : Controller) : Event → Option Retry
  | .retry r => some r
  | .activate => some ⟨c.generation + 1, 0⟩
  | event => if c.active then (c.redraws? event).map fun _ => ⟨c.generation + 1, 0⟩ else none

variable {cfg : Config} {surface : Except Failure (Viewport Float)} {c : Controller} {event : Event}
  {r : Retry}

/-- What is drawn from scratch is drawn in a first attempt, unless the controller is hidden. -/
theorem attempts?_of_redraws? {modules : List Module} (brought : c.redraws? event = some modules)
    (shown : c.active = true ∨ event = .activate) :
    c.attempts? event = some ⟨c.generation + 1, 0⟩ := by
  unfold attempts?
  split
  · cases brought
  · rfl
  · rename_i still
    rcases shown with active | activate
    · rw [if_pos active, brought, Option.map_some]
    · exact absurd activate still

theorem attempts?_cases (h : c.attempts? event = some r) :
    event = .retry r ∨
      (c.active = true ∨ event = .activate) ∧ r = ⟨c.generation + 1, 0⟩ ∧
        ∃ modules, c.redraws? event = some modules := by
  unfold attempts? at h
  split at h
  · cases h
    exact .inl rfl
  · cases h
    exact .inr ⟨.inr rfl, rfl, _, rfl⟩
  · split at h
    · rename_i active
      obtain ⟨modules, brought, rfl⟩ := Option.map_eq_some_iff.mp h
      exact .inr ⟨.inl active, rfl, modules, brought⟩
    · cases h

theorem step_of_redraws? (cfg : Config) (surface : Except Failure (Viewport Float))
    {modules : List Module} (brought : c.redraws? event = some modules)
    (shown : c.active = true ∨ event = .activate) :
    c.step cfg surface event =
      ({ c with active := true }.renewed modules).attempt cfg surface ⟨c.generation + 1, 0⟩ := by
  have supersedes := supersedes_of_redraws? brought
  have h := step_spec cfg surface c event
  generalize c.step cfg surface event = o at h ⊢
  cases h with
  | redrawn brought' =>
    cases brought.symm.trans brought'
    rfl
  | stored _ hidden still =>
    rcases shown with active | activate
    · rw [hidden] at active
      cases active
    · exact absurd activate still
  | ignored kept =>
    rw [kept] at supersedes
    cases supersedes
  | failed _ kept =>
    rw [kept] at supersedes
    cases supersedes
  | refreshed starts =>
    rw [(quiet_of_startsRefresh starts).2] at supersedes
    cases supersedes
  | declined starts =>
    rw [(quiet_of_startsRefresh starts).2] at supersedes
    cases supersedes
  | _ => cases brought

/-- **What an event that makes an attempt does is that attempt**, by the controller itself or, for
the first one of a generation, by the renewed one. -/
theorem attempts_spec (cfg : Config) (surface : Except Failure (Viewport Float))
    (h : c.attempts? event = some r) :
    ∃ c', c.step cfg surface event = c'.attempt cfg surface r ∧
      (event = .retry r ∧ c' = c ∨
        c.supersedes event = true ∧ r = ⟨c.generation + 1, 0⟩ ∧ c'.generation = r.generation) := by
  rcases attempts?_cases h with rfl | ⟨shown, rfl, modules, brought⟩
  · exact ⟨c, rfl, .inl ⟨rfl, rfl⟩⟩
  · exact ⟨_, step_of_redraws? cfg surface brought shown,
      .inr ⟨supersedes_of_redraws? brought, rfl, rfl⟩⟩

/-- What makes no attempt puts nothing off. -/
theorem retries_of_no_attempt (cfg : Config) (surface : Except Failure (Viewport Float))
    (h : c.attempts? event = none) :
    (c.step cfg surface event).effects.filterMap Effect.retry? = [] := by
  have hstep := step_spec cfg surface c event
  generalize c.step cfg surface event = o at hstep ⊢
  cases hstep with
  | retried => cases h
  | redrawn brought shown =>
    rw [attempts?_of_redraws? brought shown] at h
    cases h
  | _ => rfl

end Controller

namespace Told

variable {cfg : Controller.Config} {t : Told} {r : Retry}

/-- The attempt that was made, if one was made. -/
def attempt? (t : Told) : Option Retry := t.before.attempts? t.event

/-- An attempt of a generation was made. -/
def attemptsFor (g : Nat) (t : Told) : Bool := t.attempt?.any (·.generation == g)

/-- An attempt of a generation was made while it was the current one. -/
def triesFor (cfg : Controller.Config) (g : Nat) (t : Told) : Bool :=
  t.attemptsFor g && (t.after cfg).generation == g

/-- An attempt was put off for the `n + 1`-th time: the surface was measured and is too small. -/
structure Waits (cfg : Controller.Config) (t : Told) (n : Nat) (v : Viewport Float) : Prop where
  left : n < 20
  measured : t.surface = .ok v
  unready : Controller.isReady v = false
  drawn : t.drawn cfg = [.waiting v (n + 1)]

/-- An attempt was not put off any more, after `n` that were.  It drew one view, which tells how it
ended, or none if the surface could not be measured. -/
inductive Ends (cfg : Controller.Config) (t : Told) (n : Nat) : Prop
  | empty (none : (t.after cfg).modules = []) (drawn : t.drawn cfg = [.empty])
  | laidOut {v : Viewport Float} {layout : Layout Float} {popup : Popup}
      (measured : t.surface = .ok v) (ready : Controller.isReady v = true)
      (laid : Layout.ofModules (t.after cfg).modules v cfg.padding = .ok layout)
      (drawn : t.drawn cfg = [.layout layout popup])
  | refused {v : Viewport Float} {e : LayoutError Float} {previous : Option (Layout Float)}
      (measured : t.surface = .ok v) (ready : Controller.isReady v = true)
      (bad : Layout.ofModules (t.after cfg).modules v cfg.padding = .error e)
      (drawn : t.drawn cfg = [.error ("Hex grid error" ++ ": " ++ e.message) previous])
  | unavailable {v : Viewport Float} (spent : n = 20) (measured : t.surface = .ok v)
      (unready : Controller.isReady v = false) (drawn : t.drawn cfg = [.unavailable v])
  | unmeasured {failure : Failure} (fault : t.surface = .error failure) (drawn : t.drawn cfg = [])

/-- **An attempt of the current generation is put off, or ends the waiting.**  If it is put off, a
retry that counts one more is all that is put off; else nothing is. -/
theorem waits_or_ends (h : t.attempt? = some r) (due : r.generation = (t.after cfg).generation)
    (bound : r.count ≤ 20) :
    (∃ v, t.Waits cfg r.count v) ∧
        (t.outcome cfg).effects.filterMap Effect.retry? = [⟨r.generation, r.count + 1⟩] ∨
      t.Ends cfg r.count ∧ (t.outcome cfg).effects.filterMap Effect.retry? = [] := by
  obtain ⟨c', houtcome, -⟩ := Controller.attempts_spec cfg t.surface h
  have houtcome : t.outcome cfg = c'.attempt cfg t.surface r := houtcome
  obtain ⟨hmodules, -, hgeneration, -⟩ := Controller.attempt_frame cfg t.surface c' r
  have hafter : (t.after cfg).modules = c'.modules := by rw [after, houtcome, hmodules]
  rw [after, houtcome, hgeneration] at due
  have hdrawn : t.drawn cfg = (t.outcome cfg).effects.filterMap Effect.view? := rfl
  have hspec := Controller.attempt_spec cfg t.surface c' r
  rw [← houtcome] at hspec
  generalize t.outcome cfg = o at hspec hdrawn ⊢
  cases hspec with
  | stale old => exact absurd due old
  | empty _ none => exact .inr ⟨.empty (hafter.trans none) hdrawn, rfl⟩
  | unmeasured _ _ fault => exact .inr ⟨.unmeasured fault hdrawn, rfl⟩
  | laidOut _ _ measured ready laid =>
    rw [← hafter] at laid
    exact .inr ⟨.laidOut measured ready laid hdrawn, rfl⟩
  | refused _ _ measured ready bad =>
    rw [← hafter] at bad
    exact .inr ⟨.refused measured ready bad hdrawn, rfl⟩
  | waiting _ _ measured unready left => exact .inl ⟨⟨_, left, measured, unready, hdrawn⟩, rfl⟩
  | unavailable _ _ measured unready spent =>
    have hall : r.count = 20 := Nat.le_antisymm bound (Nat.not_lt.mp spent)
    exact .inr ⟨.unavailable hall measured unready hdrawn, rfl⟩

/-- An attempt that is out of date draws nothing and puts nothing off. -/
theorem still_of_stale (h : t.attempt? = some r) (old : r.generation ≠ (t.after cfg).generation) :
    t.outcome cfg = t.before.idle := by
  obtain ⟨c', houtcome, hcases⟩ := Controller.attempts_spec cfg t.surface h
  have houtcome : t.outcome cfg = c'.attempt cfg t.surface r := houtcome
  have hgeneration := (Controller.attempt_frame cfg t.surface c' r).2.2.1
  rw [after, houtcome, hgeneration] at old
  rcases hcases with ⟨hevent, rfl⟩ | ⟨-, -, hnew⟩
  · rw [outcome, hevent]
    exact Controller.step_retry_of_stale old
  · exact absurd hnew.symm old

theorem attemptsFor_iff {g : Nat} :
    t.attemptsFor g = true ↔ ∃ r, t.attempt? = some r ∧ r.generation = g := by
  rw [attemptsFor, Option.any_eq_true]
  simp only [beq_iff_eq]

theorem triesFor_iff {g : Nat} :
    t.triesFor cfg g = true ↔ t.attemptsFor g = true ∧ (t.after cfg).generation = g := by
  rw [triesFor, Bool.and_eq_true, beq_iff_eq]

end Told

/-! ## The attempts of a generation -/

section

variable {cfg : Controller.Config} {told : List Told} {t : Told} {g : Nat}

/-- The attempts of a generation that took effect. -/
def tries (cfg : Controller.Config) (g : Nat) (told : List Told) : List Told :=
  told.filter (·.triesFor cfg g)

/-- The views that the attempts of a generation drew. -/
def viewsOf (cfg : Controller.Config) (g : Nat) (told : List Told) : List View :=
  (told.filter (·.attemptsFor g)).flatMap (·.drawn cfg)

theorem tries_concat (h : t.triesFor cfg g = true) :
    tries cfg g (told ++ [t]) = tries cfg g told ++ [t] := by
  rw [tries, List.filter_append, List.filter_cons_of_pos h, List.filter_nil, ← tries]

theorem tries_concat_of_not (h : t.triesFor cfg g = false) :
    tries cfg g (told ++ [t]) = tries cfg g told := by
  rw [tries, List.filter_append, List.filter_cons_of_neg (by simp [h]), List.filter_nil,
    List.append_nil, ← tries]

/-- Only the attempts that took effect drew anything. -/
theorem viewsOf_eq (cfg : Controller.Config) (g : Nat) (told : List Told) :
    viewsOf cfg g told = (tries cfg g told).flatMap (·.drawn cfg) := by
  induction told with
  | nil => rfl
  | cons t told ih =>
    rw [viewsOf, tries] at ih ⊢
    cases hmade : t.attemptsFor g with
    | false =>
      rw [List.filter_cons_of_neg (by simp [hmade]),
        List.filter_cons_of_neg (by simp [Told.triesFor, hmade]), ih]
    | true =>
      rw [List.filter_cons_of_pos hmade, List.flatMap_cons, ih]
      by_cases hdue : (t.after cfg).generation = g
      · rw [List.filter_cons_of_pos (Told.triesFor_iff.mpr ⟨hmade, hdue⟩), List.flatMap_cons]
      · obtain ⟨r, hr, rfl⟩ := Told.attemptsFor_iff.mp hmade
        have hstill : t.drawn cfg = [] := by
          rw [Told.drawn, Told.still_of_stale hr (Ne.symm hdue), Controller.idle_effects,
            List.filterMap_nil]
        rw [hstill, List.nil_append, List.filter_cons_of_neg]
        simpa [Told.triesFor_iff] using fun _ => hdue

/-- Some attempts were put off one after the other, at most twenty: each time a surface was measured
that is too small, and a view drawn that counts how often they were put off. -/
structure Waited (cfg : Controller.Config) (put : List Told) (surfaces : List (Viewport Float)) :
    Prop where
  bound : surfaces.length ≤ 20
  measured : put.map (·.surface) = surfaces.map .ok
  unready : ∀ v ∈ surfaces, Controller.isReady v = false
  drawn : put.flatMap (·.drawn cfg) = surfaces.mapIdx fun n v => .waiting v (n + 1)

theorem Waited.nil : Waited cfg [] [] := ⟨by decide, rfl, by simp, rfl⟩

theorem Waited.concat {put : List Told} {surfaces : List (Viewport Float)} {v : Viewport Float}
    (h : Waited cfg put surfaces) (ht : t.Waits cfg surfaces.length v) :
    Waited cfg (put ++ [t]) (surfaces ++ [v]) := by
  refine ⟨?_, ?_, ?_, ?_⟩
  · rw [List.length_append, List.length_singleton]
    exact ht.left
  · rw [List.map_append, List.map_append, h.measured, List.map_singleton, ht.measured,
      List.map_singleton]
  · intro u hu
    rcases List.mem_append.mp hu with hu | hu
    · exact h.unready u hu
    · rw [List.mem_singleton.mp hu]
      exact ht.unready
  · rw [List.flatMap_append, h.drawn, List.flatMap_singleton, ht.drawn, List.mapIdx_concat]

/-- How the attempts of a generation go: they are put off, and then one may end the waiting. -/
inductive Course (cfg : Controller.Config) : List Told → Prop
  | waiting {put : List Told} {surfaces : List (Viewport Float)}
      (waited : Waited cfg put surfaces) : Course cfg put
  | ended {put : List Told} {surfaces : List (Viewport Float)} {t : Told}
      (waited : Waited cfg put surfaces) (ends : t.Ends cfg surfaces.length) :
      Course cfg (put ++ [t])

end

/-! ## The retry that is live -/

namespace Host

variable {cfg : Controller.Config} {surface : Except Failure (Viewport Float)} {h rest : Host}
  {event : Event} {r : Retry}

theorem mem_live_iff : r ∈ h.live ↔ r ∈ h.queue ∧ r.generation = h.controller.generation := by
  rw [live, List.mem_filter, beq_iff_eq]

/-- A retry that stays in the queue and is of the generation after a step was live before. -/
theorem Offers.mem_live_of_kept (ho : h.Offers event rest) (hq : h.QueueInv)
    (hr : r ∈ rest.queue)
    (hlive : r.generation = (h.controller.step cfg surface event).controller.generation) :
    r ∈ h.live := by
  have hmem := ho.queue_sublist.subset hr
  have hbound := hq.bounded r hmem
  have hle := Controller.generation_le_step cfg surface h.controller event
  exact mem_live_iff.mpr ⟨hmem, by omega⟩

/-- No attempt is made for a generation that is yet to come. -/
theorem Offers.attempt_le (ho : h.Offers event rest) (hq : h.QueueInv)
    (hr : h.controller.attempts? event = some r) :
    r.generation ≤ (h.controller.step cfg surface event).controller.generation := by
  have hle := Controller.generation_le_step cfg surface h.controller event
  obtain ⟨c', -, ⟨rfl, -⟩ | ⟨hs, rfl, -⟩⟩ := Controller.attempts_spec cfg surface hr
  · exact Nat.le_trans (hq.bounded r ho.retry_mem) hle
  · exact Nat.le_of_eq (by rw [Controller.generation_step, if_pos hs])

/-- When an attempt takes effect, nothing else of its generation is in the queue. -/
theorem Offers.spent (ho : h.Offers event rest) (hq : h.QueueInv) (hone : h.live.length ≤ 1)
    (hr : h.controller.attempts? event = some r)
    (due : r.generation = (h.controller.step cfg surface event).controller.generation) :
    ∀ q ∈ rest.queue,
      q.generation ≠ (h.controller.step cfg surface event).controller.generation := by
  intro q hmem hsame
  obtain ⟨c', -, ⟨rfl, -⟩ | ⟨hs, -, -⟩⟩ := Controller.attempts_spec cfg surface hr
  · have hgen : (h.controller.step cfg surface (.retry r)).controller.generation =
        h.controller.generation := Controller.generation_step ..
    have hperm := (ho.queue_perm.filter fun r =>
      r.generation == h.controller.generation).length_eq
    rw [List.filter_cons_of_pos (by simpa using due.trans hgen), List.length_cons] at hperm
    have hq : q ∈ rest.queue.filter fun r => r.generation == h.controller.generation :=
      List.mem_filter.mpr ⟨hmem, by simpa using hsame.trans hgen⟩
    have := List.length_pos_of_mem hq
    rw [Host.live] at hone
    omega
  · have := hq.bounded q (ho.queue_sublist.subset hmem)
    rw [Controller.generation_step, if_pos hs] at hsame
    omega

end Host

/-- What is known of the waiting: of no generation to come has there been an attempt; the attempts
of each generation take their course; and a live retry goes on where the attempts of its generation
stand, all of which were put off. -/
structure WaitInv (cfg : Controller.Config) (x : History) : Prop where
  queue : x.host.QueueInv
  single : x.host.live.length ≤ 1
  ahead : ∀ t ∈ x.told, ∀ g, t.attemptsFor g = true → g ≤ x.host.controller.generation
  course : ∀ g, Course cfg (tries cfg g x.told)
  live : ∀ r ∈ x.host.live, ∃ surfaces,
    Waited cfg (tries cfg r.generation x.told) surfaces ∧ surfaces.length = r.count

namespace WaitInv

variable {cfg : Controller.Config} {surface : Except Failure (Viewport Float)} {x : History}
  {event : Event} {rest : Host}

theorem start (cfg : Controller.Config) : WaitInv cfg .start :=
  ⟨.start, Nat.zero_le 1, by simp [History.start], fun _ => .waiting .nil, by
    simp [History.start, Host.start, Host.live]⟩

/-- The attempts that come before one that takes effect were all put off, as often as it counts. -/
theorem before (hx : WaitInv cfg x) (ho : x.host.Offers event rest) {r : Retry}
    (hr : x.host.controller.attempts? event = some r)
    (due : r.generation = (x.host.controller.step cfg surface event).controller.generation) :
    ∃ surfaces, Waited cfg (tries cfg r.generation x.told) surfaces ∧
      surfaces.length = r.count := by
  obtain ⟨c', -, ⟨rfl, -⟩ | ⟨hs, rfl, -⟩⟩ := Controller.attempts_spec cfg surface hr
  · have hgen : (x.host.controller.step cfg surface (.retry r)).controller.generation =
        x.host.controller.generation := Controller.generation_step ..
    exact hx.live r (Host.mem_live_iff.mpr ⟨ho.retry_mem, due.trans hgen⟩)
  · have hnone : tries cfg (x.host.controller.generation + 1) x.told = [] := by
      rw [tries, List.filter_eq_nil_iff]
      intro t ht htries
      have := hx.ahead t ht _ (Told.triesFor_iff.mp htries).1
      omega
    refine ⟨[], ?_, rfl⟩
    rw [hnone]
    exact .nil

theorem ahead_tell (hx : WaitInv cfg x) (ho : x.host.Offers event rest) :
    ∀ t ∈ (x.tell cfg surface event rest).told, ∀ g, t.attemptsFor g = true →
      g ≤ (x.tell cfg surface event rest).host.controller.generation := by
  intro t ht g hg
  rcases List.mem_append.mp ht with ht | ht
  · exact Nat.le_trans (hx.ahead t ht g hg) (Controller.generation_le_step ..)
  · obtain rfl := List.mem_singleton.mp ht
    obtain ⟨r, hr, rfl⟩ := Told.attemptsFor_iff.mp hg
    exact ho.attempt_le hx.queue hr

/-- **What makes no attempt that takes effect changes nothing about the waiting.** -/
theorem tell_quiet (hx : WaitInv cfg x) (ho : x.host.Offers event rest)
    (hquiet : ∀ g, Told.triesFor cfg g ⟨x.host.controller, surface, event⟩ = false)
    (hnone : (x.host.controller.step cfg surface event).effects.filterMap Effect.retry? = []) :
    WaitInv cfg (x.tell cfg surface event rest) := by
  have htries : ∀ g, tries cfg g (x.tell cfg surface event rest).told = tries cfg g x.told :=
    fun g => tries_concat_of_not (hquiet g)
  refine ⟨hx.queue.tell ho, Host.live_absorb hx.queue hx.single ho, hx.ahead_tell ho, ?_, ?_⟩
  · intro g
    rw [htries]
    exact hx.course g
  · intro r hr
    obtain ⟨hmem, hgen⟩ := Host.mem_live_iff.mp hr
    rw [htries]
    apply hx.live
    refine ho.mem_live_of_kept hx.queue ?_ hgen
    rcases List.mem_append.mp hmem with hmem | hmem
    · exact hmem
    · change r ∈ (x.host.controller.step cfg surface event).effects.filterMap Effect.retry? at hmem
      rw [hnone] at hmem
      cases hmem

/-- **An attempt that takes effect goes on with the waiting of its generation, or ends it.** -/
theorem tell_attempt (hx : WaitInv cfg x) (ho : x.host.Offers event rest) {r : Retry}
    (hr : x.host.controller.attempts? event = some r)
    (due : r.generation = (x.host.controller.step cfg surface event).controller.generation) :
    WaitInv cfg (x.tell cfg surface event rest) := by
  obtain ⟨surfaces, hwaited, hcount⟩ := hx.before ho hr due
  have hspent := ho.spent hx.queue hx.single hr due
  let t : Told := ⟨x.host.controller, surface, event⟩
  have hattempt : t.attempt? = some r := hr
  have hmine : t.triesFor cfg r.generation = true :=
    Told.triesFor_iff.mpr ⟨Told.attemptsFor_iff.mpr ⟨r, hattempt, rfl⟩, due.symm⟩
  have hothers : ∀ g, g ≠ r.generation → t.triesFor cfg g = false := by
    intro g hg
    rw [Bool.eq_false_iff]
    intro htries
    obtain ⟨r', hr', rfl⟩ := Told.attemptsFor_iff.mp (Told.triesFor_iff.mp htries).1
    rw [hattempt] at hr'
    cases hr'
    exact hg rfl
  have htries : tries cfg r.generation (x.tell cfg surface event rest).told =
      tries cfg r.generation x.told ++ [t] := tries_concat hmine
  -- what is live now is what was just put off
  have hlive : ∀ q ∈ (x.tell cfg surface event rest).host.live,
      q ∈ (t.outcome cfg).effects.filterMap Effect.retry? := by
    intro q hq
    obtain ⟨hmem, hgen⟩ := Host.mem_live_iff.mp hq
    rcases List.mem_append.mp hmem with hmem | hmem
    · exact absurd hgen (hspent q hmem)
    · exact hmem
  have hcourse : Course cfg (tries cfg r.generation x.told ++ [t]) →
      ∀ g, Course cfg (tries cfg g (x.tell cfg surface event rest).told) := by
    intro h g
    by_cases hg : g = r.generation
    · rw [hg, htries]
      exact h
    · rw [show tries cfg g (x.tell cfg surface event rest).told = _ from
        tries_concat_of_not (hothers g hg)]
      exact hx.course g
  have hqueue : (rest.absorb (x.host.controller.step cfg surface event)).QueueInv :=
    hx.queue.tell ho
  have hsingle : (rest.absorb (x.host.controller.step cfg surface event)).live.length ≤ 1 :=
    Host.live_absorb hx.queue hx.single ho
  rcases t.waits_or_ends hattempt due (hcount ▸ hwaited.bound) with
    ⟨⟨v, hwaits⟩, hput⟩ | ⟨hends, hput⟩
  · rw [← hcount] at hwaits
    have hmore := hwaited.concat hwaits
    refine ⟨hqueue, hsingle, hx.ahead_tell ho, hcourse (.waiting hmore), ?_⟩
    intro q hq
    have hq := hlive q hq
    rw [hput, List.mem_singleton] at hq
    subst hq
    refine ⟨surfaces ++ [v], ?_, ?_⟩
    · rw [htries]
      exact hmore
    · rw [List.length_append, List.length_singleton, hcount]
  · rw [← hcount] at hends
    refine ⟨hqueue, hsingle, hx.ahead_tell ho, hcourse (.ended hwaited hends), ?_⟩
    intro q hq
    have hq := hlive q hq
    rw [hput] at hq
    cases hq

/-- **The controller may be told of anything that the host offers.** -/
theorem tell (hx : WaitInv cfg x) (ho : x.host.Offers event rest) :
    WaitInv cfg (x.tell cfg surface event rest) := by
  cases hr : x.host.controller.attempts? event with
  | none =>
    refine hx.tell_quiet ho ?_ (Controller.retries_of_no_attempt cfg surface hr)
    intro g
    simp [Told.triesFor, Told.attemptsFor, Told.attempt?, hr]
  | some r =>
    by_cases due : r.generation = (x.host.controller.step cfg surface event).controller.generation
    · exact hx.tell_attempt ho hr due
    · refine hx.tell_quiet ho ?_ ?_
      · intro g
        rw [Bool.eq_false_iff]
        intro htries
        obtain ⟨hmade, hgen⟩ := Told.triesFor_iff.mp htries
        obtain ⟨r', hr', rfl⟩ := Told.attemptsFor_iff.mp hmade
        cases hr.symm.trans hr'
        exact due hgen.symm
      · have hstale : x.host.controller.step cfg surface event = x.host.controller.idle :=
          Told.still_of_stale (t := ⟨x.host.controller, surface, event⟩) hr due
        rw [hstale]
        rfl

end WaitInv

theorem History.waitInv_run (cfg : Controller.Config) (turns : List (Turn Event)) :
    WaitInv cfg (run cfg turns) := by
  refine run_induction (P := WaitInv cfg) (.start cfg) ?_ ?_ turns
  · intro x i f ending hf hx _ _
    exact ⟨⟨hx.queue.bounded, hx.queue.live⟩, hx.single, hx.ahead, hx.course, hx.live⟩
  · intro x surface event rest hx ho
    exact hx.tell ho

/-! ## Running what was put off -/

/-- How many retries there still can be: those in the queue, and those that the live one may put off
in turn. -/
def Host.effort (h : Host) : Nat :=
  h.queue.length + (h.live.map fun r => 20 - r.count).sum

theorem Host.effort_le {h : Host} (hone : h.live.length ≤ 1) : h.effort ≤ h.queue.length + 20 := by
  have hsum : (h.live.map fun r => 20 - r.count).sum ≤ 20 := by
    match hlive : h.live, hone with
    | [], _ => simp
    | [r], _ => simp
  exact Nat.add_le_add_left hsum _

theorem Host.effort_absorb (rest : Host) (o : Controller.Outcome) :
    (rest.absorb o).effort =
      (rest.queue.length +
        ((rest.queue.filter (·.generation == o.controller.generation)).map (20 - ·.count)).sum) +
      ((o.effects.filterMap Effect.retry?).length +
        (((o.effects.filterMap Effect.retry?).filter
          (·.generation == o.controller.generation)).map (20 - ·.count)).sum) := by
  have hlive : (rest.absorb o).live =
      rest.queue.filter (·.generation == o.controller.generation) ++
        (o.effects.filterMap Effect.retry?).filter (·.generation == o.controller.generation) :=
    List.filter_append ..
  have hqueue : (rest.absorb o).queue = rest.queue ++ o.effects.filterMap Effect.retry? := rfl
  rw [effort, hlive, hqueue, List.map_append, List.sum_append, List.length_append]
  omega

/-- **A retry that is run takes from the effort.** -/
theorem WaitInv.effort_lt {cfg : Controller.Config} {surface : Except Failure (Viewport Float)}
    {x : History} {rest : Host} {r : Retry} (hx : WaitInv cfg x)
    (ho : x.host.Offers (.retry r) rest) :
    (x.tell cfg surface (.retry r) rest).host.effort < x.host.effort := by
  have hgen : (x.host.controller.step cfg surface (.retry r)).controller.generation =
      x.host.controller.generation := Controller.generation_step ..
  have hlength : x.host.queue.length = rest.queue.length + 1 := ho.queue_perm.length_eq
  have hlive := ((ho.queue_perm.filter (·.generation == x.host.controller.generation)).map
    (20 - ·.count)).sum_eq
  let t : Told := ⟨x.host.controller, surface, .retry r⟩
  have hattempt : t.attempt? = some r := rfl
  change (rest.absorb (t.outcome cfg)).effort < _
  rw [Host.effort_absorb, Host.effort, hlength, Host.live, hlive,
    show (t.outcome cfg).controller.generation = _ from hgen]
  by_cases due : r.generation = x.host.controller.generation
  · rw [List.filter_cons_of_pos (by simpa using due), List.map_cons, List.sum_cons]
    obtain ⟨surfaces, hwaited, hcount⟩ :=
      hx.live r (Host.mem_live_iff.mpr ⟨ho.retry_mem, due⟩)
    rcases t.waits_or_ends hattempt (due.trans hgen.symm) (hcount ▸ hwaited.bound) with
      ⟨⟨v, hwaits⟩, hput⟩ | ⟨-, hput⟩
    · have := hwaits.left
      rw [hput, List.filter_cons_of_pos (by simpa using due)]
      simp
      omega
    · rw [hput]
      simp
      omega
  · rw [List.filter_cons_of_neg (by simpa using due)]
    have hstale : t.outcome cfg = x.host.controller.idle := Controller.step_retry_of_stale due
    rw [hstale]
    simp

namespace History

/-- However the retries in the queue are run from here on, one after the other and with nothing else
between them, and whatever measuring gives: none is left after at most so many. -/
def RunsOut (cfg : Controller.Config) : Nat → History → Prop
  | 0, x => x.host.queue = []
  | n + 1, x =>
    ∀ i surface, i < x.host.queue.length → RunsOut cfg n (x.next cfg ⟨surface, .retry i⟩)

theorem runsOut_of_effort_le {cfg : Controller.Config} {n : Nat} {x : History} (hx : WaitInv cfg x)
    (h : x.host.effort ≤ n) : x.RunsOut cfg n := by
  induction n generalizing x with
  | zero =>
    rw [RunsOut, ← List.length_eq_zero_iff]
    rw [Host.effort] at h
    omega
  | succ n ih =>
    intro i surface hi
    have hqueued : x.host.queue[i]? = some x.host.queue[i] := List.getElem?_eq_getElem hi
    have ho : x.host.Offers (.retry x.host.queue[i])
        { x.host with queue := x.host.queue.eraseIdx i } := .retry hqueued
    have hnext : x.next cfg ⟨surface, .retry i⟩ = x.tell cfg surface (.retry x.host.queue[i])
        { x.host with queue := x.host.queue.eraseIdx i } := by
      simp only [next, Host.offer?, hqueued]
    rw [hnext]
    exact ih (hx.tell ho) (Nat.le_of_lt_succ (Nat.lt_of_lt_of_le (hx.effort_lt ho) h))

end History

/-- **Waiting is bounded, and has one outcome.**  In every run, the attempts of a generation that
took effect are some that were put off, and then at most one that was not.  Those that were put off,
twenty at most, measured surfaces that are too small, and each drew a view that counts them.  The
one that ends the waiting drew one view at most: that there are no modules, the layout on a surface
that it measured and that is large enough, why there is no layout on such a surface, or, after
twenty attempts that were put off and on a surface that is too small again, that there is no room.
The attempts of the generation drew nothing else.  And from every state that a run comes to, the
retries in the queue run out after at most twenty more than there are, in whatever order they are
run and whatever measuring gives. -/
theorem waiting_is_bounded (cfg : Controller.Config) (turns : List (Turn Event)) :
    (∀ g, ∃ (put : List Told) (last : Option Told) (surfaces : List (Viewport Float)),
        tries cfg g (History.run cfg turns).told = put ++ last.toList ∧
          put.map (·.surface) = surfaces.map .ok ∧
          (∀ v ∈ surfaces, Controller.isReady v = false) ∧
          surfaces.length ≤ 20 ∧
          (∀ t ∈ last, t.Ends cfg surfaces.length) ∧
          viewsOf cfg g (History.run cfg turns).told =
            (surfaces.mapIdx fun n v => .waiting v (n + 1)) ++
              last.toList.flatMap (·.drawn cfg)) ∧
      (History.run cfg turns).RunsOut cfg ((History.run cfg turns).host.queue.length + 20) := by
  have hx := History.waitInv_run cfg turns
  refine ⟨?_, History.runsOut_of_effort_le hx (Host.effort_le hx.single)⟩
  intro g
  rw [viewsOf_eq]
  have hcourse := hx.course g
  generalize tries cfg g (History.run cfg turns).told = attempts at hcourse ⊢
  cases hcourse with
  | waiting waited =>
    refine ⟨attempts, none, _, by simp, waited.measured, waited.unready, waited.bound, by simp, ?_⟩
    rw [waited.drawn]
    simp
  | ended waited ends =>
    refine ⟨_, some _, _, rfl, waited.measured, waited.unready, waited.bound, ?_, ?_⟩
    · rintro _ ⟨⟩
      exact ends
    · rw [List.flatMap_append, waited.drawn]
      rfl

/-- "a" waits on a surface without a size, and every retry is run there. -/
def neverReady : List (Turn Event) :=
  ⟨.ok ⟨0, 0⟩, .operate (.recompute [⟨"a", true, false, []⟩])⟩ ::
    List.replicate 20 ⟨.ok ⟨0, 0⟩, .retry 0⟩

example :
    viewsOf .default 1 (History.run .default neverReady).told =
        (List.replicate 20 ⟨0, 0⟩).mapIdx (fun n v => .waiting v (n + 1)) ++
          [.unavailable ⟨0, 0⟩] ∧
      (History.run .default neverReady).host.queue = [] := by
  decide +kernel

end Honeycomb
