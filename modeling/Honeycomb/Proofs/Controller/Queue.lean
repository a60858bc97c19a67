import Mathlib.Data.List.Perm.Basic
import Honeycomb.Proofs.Controller.Step

/-!
# The queue of retries

* `retries_step` — a step puts off at most one retry, of the generation after it.
* `Host.QueueInv` and `QueueInv.tell` — what the queue knows about the controller, which may be told
  of anything that the host offers.
-/

set_option autoImplicit false

namespace Honeycomb

/-- **A step puts off at most one retry**, and none unless it draws from scratch or a retry is due.
The retry is of the generation after the step, and then there are modules to draw. -/
theorem Controller.retries_step (cfg : Config) (surface : Except Failure (Viewport Float))
    (c : Controller) (event : Event) :
    (c.step cfg surface event).effects.filterMap Effect.retry? = [] ∨
      ∃ r, (c.step cfg surface event).effects.filterMap Effect.retry? = [r] ∧
        r.generation = (c.step cfg surface event).controller.generation ∧
        (c.step cfg surface event).controller.modules ≠ [] ∧
        ((c.supersedes event = true ∧ (c.step cfg surface event).controller.active = true) ∨
          ∃ r', event = .retry r' ∧ r'.generation = c.generation) := by
  have h := step_spec cfg surface c event
  generalize c.step cfg surface event = o at h ⊢
  cases h with
  | @retried r due =>
    refine (attempt_retries cfg surface c r).imp_right ?_
    rintro ⟨some, hr⟩
    obtain ⟨hm, -, hg, -⟩ := attempt_frame cfg surface c r
    exact ⟨_, hr, hg.symm, by rw [hm]; exact some, .inr ⟨r, rfl, due⟩⟩
  | redrawn brought shown =>
    refine (attempt_retries cfg surface _ _).imp_right ?_
    rintro ⟨some, hr⟩
    obtain ⟨hm, ha, hg, -⟩ := attempt_frame cfg surface ({ c with active := true }.renewed _) _
    exact ⟨_, hr, hg.symm, by rw [hm]; exact some, .inl ⟨supersedes_of_redraws? brought, ha⟩⟩
  | _ => exact .inl rfl

namespace Host

variable {h rest : Host} {event : Event} {r : Retry}

/-- **What the queue knows.**  No retry is of a later generation; one of the current generation is
there only while the controller is active and has modules to draw. -/
structure QueueInv (h : Host) : Prop where
  bounded : ∀ r ∈ h.queue, r.generation ≤ h.controller.generation
  live : ∀ r ∈ h.queue, r.generation = h.controller.generation →
    h.controller.modules ≠ [] ∧ h.controller.active = true

theorem Offers.queue_sublist (ho : h.Offers event rest) : rest.queue.Sublist h.queue := by
  cases ho with
  | operation => exact List.Sublist.refl _
  | retry => exact List.eraseIdx_sublist _ _
  | settle => exact List.Sublist.refl _

/-- A retry that the controller is told of leaves the queue. -/
theorem Offers.queue_perm (ho : h.Offers (.retry r) rest) :
    h.queue.Perm (r :: rest.queue) := by
  cases ho with
  | operation outside => cases outside
  | @retry i _ queued =>
    obtain ⟨hi, hget⟩ := List.getElem?_eq_some_iff.mp queued
    rw [← hget]
    exact (List.getElem_cons_eraseIdx_perm hi).symm
  | @settle i f _ underway answered =>
    have hf := f.ends _ answered
    cases hc : f.call <;> rw [hc] at hf <;> cases hf

theorem Offers.retry_mem (ho : h.Offers (.retry r) rest) : r ∈ h.queue :=
  ho.queue_perm.symm.subset List.mem_cons_self

/-- Where a retry is due, there are modules to draw. -/
theorem Offers.live (ho : h.Offers event rest) (hq : h.QueueInv) :
    ∀ r, event = .retry r → r.generation = h.controller.generation → h.controller.modules ≠ [] := by
  rintro r rfl due
  exact (hq.live r ho.retry_mem due).1

theorem QueueInv.start : QueueInv .start := ⟨nofun, nofun⟩

/-- **The controller may be told of anything that the host offers.** -/
theorem QueueInv.tell {cfg : Controller.Config} {surface : Except Failure (Viewport Float)}
    (hq : h.QueueInv) (ho : h.Offers event rest) :
    (rest.absorb (h.controller.step cfg surface event)).QueueInv := by
  have hnew := Controller.retries_step cfg surface h.controller event
  refine ⟨?_, ?_⟩
  · intro r hr
    rcases List.mem_append.mp hr with hr | hr
    · exact Nat.le_trans (hq.bounded r (ho.queue_sublist.subset hr))
        (Controller.generation_le_step cfg surface h.controller event)
    · rcases hnew with hnone | ⟨r', hone, hg, -⟩
      · rw [hnone] at hr
        cases hr
      · rw [hone, List.mem_singleton] at hr
        subst hr
        exact Nat.le_of_eq hg
  · intro r hr hg
    rcases List.mem_append.mp hr with hr | hr
    · -- an old retry is live only if the generation stayed, and then so did modules and activity
      have hb := hq.bounded r (ho.queue_sublist.subset hr)
      have hgen := Controller.generation_step cfg surface h.controller event
      change r.generation = (h.controller.step cfg surface event).controller.generation at hg
      rw [hgen] at hg
      cases hs : h.controller.supersedes event with
      | true =>
        rw [if_pos hs] at hg
        omega
      | false =>
        rw [hs, if_neg Bool.false_ne_true] at hg
        obtain ⟨hm, ha⟩ := Controller.frame_step cfg surface h.controller hs
        obtain ⟨some, active⟩ := hq.live r (ho.queue_sublist.subset hr) hg
        exact ⟨fun none => some (hm.symm.trans none), ha.trans active⟩
    · rcases hnew with hnone | ⟨-, -, -, hm, ⟨-, ha⟩ | ⟨r', rfl, due⟩⟩
      · rw [hnone] at hr
        cases hr
      · exact ⟨hm, ha⟩
      · have hs : h.controller.supersedes (.retry r') = false := rfl
        have ha := (Controller.frame_step cfg surface h.controller hs).2
        exact ⟨hm, ha.trans (hq.live r' ho.retry_mem due).2⟩

end Host

end Honeycomb
