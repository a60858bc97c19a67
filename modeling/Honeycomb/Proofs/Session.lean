import Honeycomb.Controller.Session
import Honeycomb.Proofs.Controller.Run

/-!
# What a session records

Calls and views are recorded in the order in which they come, and what happens later never takes one
back.

* `foldl_carryOut` — carrying out effects records the part of each that a list of the record is for.
* `calls_handle`, `views_handle` — handling an event records the calls and the views among its
  effects.
* `calls_prefix_settle`, `views_prefix_settle` — letting the service answer keeps the calls and the
  views that were recorded before.
-/

set_option autoImplicit false

namespace Honeycomb.Session

section

variable {α : Type} {field : Record → List α} {part? : Effect → Option α}

/-- What a list of the record gets from effects that are carried out. -/
theorem foldl_carryOut {operation : Nat}
    (hone : ∀ s r effect,
      field (carryOut operation (s, r) effect).2 = field r ++ (part? effect).toList)
    (effects : List Effect) (s : Session) (r : Record) :
    field (effects.foldl (carryOut operation) (s, r)).2 = field r ++ effects.filterMap part? := by
  induction effects generalizing s r with
  | nil => exact (List.append_nil _).symm
  | cons effect rest ih =>
    rw [List.foldl_cons, ih, hone, List.append_assoc]
    cases h : part? effect with
    | none => rw [List.filterMap_cons_none h]; rfl
    | some part => rw [List.filterMap_cons_some h]; rfl

/-- A list that only grows as the controller is told of events only grows as the service answers. -/
theorem prefix_settleCalls
    (htell : ∀ (s : Session) (operation : Nat) (event : Event) (r : Record),
      field r <+: field (s.tell operation event r).2.2)
    (hended : ∀ (r : Record) (ended : List (Nat × Option Failure)),
      field { r with ended } = field r)
    (fuel : Nat) (s : Session) (r : Record) : field r <+: field (settleCalls fuel s r).2 := by
  have hresume : ∀ (s : Session) (operation : Nat) (event : Event) (r : Record),
      field r <+: field (s.resume operation event r).2 := by
    intro s operation event r
    unfold resume
    dsimp only
    split
    · exact htell s operation event r
    · show field r <+: field { (s.tell operation event r).2.2 with ended := _ }
      rw [hended (s.tell operation event r).2.2]
      exact htell s operation event r
  induction fuel generalizing s r with
  | zero => exact List.prefix_rfl
  | succ fuel ih =>
    unfold settleCalls
    split
    · exact List.prefix_rfl
    · rename_i p rest hpending
      split
      · exact List.prefix_rfl
      · rename_i event service hanswer
        exact (hresume _ p.operation event r).trans (ih _ _)

end

/-! ## Calls -/

theorem calls_carryOut (operation : Nat) (s : Session) (r : Record) (effect : Effect) :
    (carryOut operation (s, r) effect).2.calls = r.calls ++ effect.call?.toList := by
  cases effect with
  | call call => rfl
  | _ => exact (List.append_nil _).symm

/-- Telling the controller of an event records the calls among its effects. -/
theorem calls_tell (s : Session) (operation : Nat) (event : Event) (r : Record) :
    (s.tell operation event r).2.2.calls =
      r.calls ++ (s.controller.step s.config s.measure event).effects.filterMap Effect.call? :=
  foldl_carryOut (calls_carryOut operation) _ _ r

theorem calls_handle (s : Session) (operation : Nat) (event : Event) (r : Record) :
    (s.handle operation event r).2.calls =
      r.calls ++ (s.controller.step s.config s.measure event).effects.filterMap Effect.call? :=
  s.calls_tell operation event r

/-- **Letting the service answer takes no call back.** -/
theorem calls_prefix_settle (s : Session) (r : Record) : r.calls <+: (s.settle r).2.calls := by
  refine prefix_settleCalls (fun s operation event r => ?_) (fun _ _ => rfl) _ s r
  rw [calls_tell]
  exact List.prefix_append _ _

/-! ## Views -/

theorem views_carryOut (operation : Nat) (s : Session) (r : Record) (effect : Effect) :
    (carryOut operation (s, r) effect).2.views = r.views ++ effect.view?.toList := by
  cases effect with
  | draw view => rfl
  | _ => exact (List.append_nil _).symm

/-- Telling the controller of an event records the views among its effects. -/
theorem views_tell (s : Session) (operation : Nat) (event : Event) (r : Record) :
    (s.tell operation event r).2.2.views =
      r.views ++ (s.controller.step s.config s.measure event).effects.filterMap Effect.view? :=
  foldl_carryOut (views_carryOut operation) _ _ r

theorem views_handle (s : Session) (operation : Nat) (event : Event) (r : Record) :
    (s.handle operation event r).2.views =
      r.views ++ (s.controller.step s.config s.measure event).effects.filterMap Effect.view? :=
  s.views_tell operation event r

/-- **Letting the service answer takes no view back.** -/
theorem views_prefix_settle (s : Session) (r : Record) : r.views <+: (s.settle r).2.views := by
  refine prefix_settleCalls (fun s operation event r => ?_) (fun _ _ => rfl) _ s r
  rw [views_tell]
  exact List.prefix_append _ _

end Honeycomb.Session
