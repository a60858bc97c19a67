import Honeycomb.Controller.Step

/-!
# Runs of a controller

A controller among everything that may happen to it, in any order.

* `Host` — the controller, the retries that are put off and the service calls under way.  A call is
  under way from the moment it is made until the controller is told how it ended; in between the
  service answers it once, at any time.
* `Move` — an operation from outside, a retry that is due, an answer of the service, or the end of a
  call that has been answered.  A move that is not possible changes nothing.
* `History.run` — what became of a controller in a list of turns, with all that it was told.

Nothing is assumed about the order of moves, and what measuring the surface gives is part of each
turn.  Principal results: `run_induction` — what holds at the start, and is kept whenever a call is
answered and whenever the controller is told of something, holds after every run; `leads_run` — what
was told is a chain of steps, as `Leads` has it, from the first controller to the last one.
-/

set_option autoImplicit false

namespace Honeycomb

def Effect.view? : Effect → Option View
  | .draw view => some view
  | _ => none

def Effect.retry? : Effect → Option Retry
  | .schedule retry => some retry
  | _ => none

def Effect.call? : Effect → Option Call
  | .call made => some made
  | _ => none

/-- Whether an event comes from outside, and not from the host itself. -/
def Event.isOperation : Event → Bool
  | .retry _ | .fetched _ _ | .toggled _ _ | .saved _ _ => false
  | _ => true

/-- Whether a call can end in an event. -/
def Call.endsIn : Call → Event → Bool
  | .fetch refresh, .fetched number _ => refresh == number
  | .toggle name, .toggled toggled _ => name == toggled
  | .update name _, .saved saved _ => name == saved
  | _, _ => false

/-- A call under way, and the event that it ends in once the service has answered. -/
structure Flight where
  call : Call
  ending : Option Event
  ends : ∀ event, ending = some event → call.endsIn event = true

def Flight.made (call : Call) : Flight := ⟨call, none, nofun⟩

/-- The same call once it is known how it ends. -/
def Flight.answered (f : Flight) (ending : Event) (h : f.call.endsIn ending = true) : Flight :=
  ⟨f.call, some ending, by rintro _ ⟨⟩; exact h⟩

/-- A controller, the retries put off and the calls under way. -/
structure Host where
  controller : Controller
  queue : List Retry
  flights : List Flight

/-- Something that may happen; `α` is what an answer of the service says. -/
inductive Move (α : Type)
  | operate (event : Event)
  /-- The retry at a position of the queue is due. -/
  | retry (position : Nat)
  /-- The service answers the call at a position. -/
  | answer (position : Nat) (answer : α)
  /-- The controller is told how the call at a position ended. -/
  | settle (position : Nat)

/-- A move, and what measuring the surface gives meanwhile. -/
structure Turn (α : Type) where
  surface : Except Failure (Viewport Float)
  move : Move α

/-- One thing that a controller was told. -/
structure Told where
  before : Controller
  surface : Except Failure (Viewport Float)
  event : Event

namespace Told

def outcome (cfg : Controller.Config) (t : Told) : Controller.Outcome :=
  t.before.step cfg t.surface t.event

def after (cfg : Controller.Config) (t : Told) : Controller := (t.outcome cfg).controller

def drawn (cfg : Controller.Config) (t : Told) : List View :=
  (t.outcome cfg).effects.filterMap Effect.view?

end Told

namespace Host

/-- A host in which nothing has happened. -/
def start : Host := ⟨.initial, [], []⟩

/-- `h.Offers event rest`: the controller may be told of `event`, which leaves `rest`. -/
inductive Offers : Host → Event → Host → Prop
  | operation {h : Host} {event : Event} (outside : event.isOperation = true) : Offers h event h
  | retry {h : Host} {i : Nat} {retry : Retry} (queued : h.queue[i]? = some retry) :
      Offers h (.retry retry) { h with queue := h.queue.eraseIdx i }
  | settle {h : Host} {i : Nat} {f : Flight} {event : Event} (underway : h.flights[i]? = some f)
      (answered : f.ending = some event) :
      Offers h event { h with flights := h.flights.eraseIdx i }

/-- What a move has the controller told, and what it leaves. -/
def offer? {α : Type} (h : Host) : Move α → Option (Event × Host)
  | .operate event => if event.isOperation then some (event, h) else none
  | .retry i =>
    match h.queue[i]? with
    | some retry => some (.retry retry, { h with queue := h.queue.eraseIdx i })
    | none => none
  | .settle i =>
    match h.flights[i]? with
    | some f => f.ending.map fun event => (event, { h with flights := h.flights.eraseIdx i })
    | none => none
  | .answer _ _ => none

theorem offers_of_offer? {α : Type} {h rest : Host} {move : Move α} {event : Event}
    (hm : h.offer? move = some (event, rest)) : h.Offers event rest := by
  cases move with
  | operate e =>
    simp only [offer?] at hm
    split at hm
    · rename_i hop
      cases hm
      exact .operation hop
    · cases hm
  | retry i =>
    simp only [offer?] at hm
    split at hm
    · rename_i hi
      cases hm
      exact .retry hi
    · cases hm
  | settle i =>
    simp only [offer?] at hm
    split at hm
    · rename_i f hi
      obtain ⟨event', he, hm⟩ := Option.map_eq_some_iff.mp hm
      cases hm
      exact .settle hi he
    · cases hm
  | answer i ending => cases hm

/-- The call at a position is answered: it will end in `ending`. -/
def answered (h : Host) (i : Nat) (f : Flight) (ending : Event)
    (hf : f.call.endsIn ending = true) : Host :=
  { h with flights := h.flights.set i (f.answered ending hf) }

/-- The host after the controller was told of something: new retries and calls come last. -/
def absorb (h : Host) (o : Controller.Outcome) : Host :=
  { controller := o.controller
    queue := h.queue ++ o.effects.filterMap Effect.retry?
    flights := h.flights ++ (o.effects.filterMap Effect.call?).map Flight.made }

end Host

/-- A host, and all that its controller was told so far, in order. -/
structure History where
  host : Host
  told : List Told

namespace History

variable {cfg : Controller.Config}

/-- Nothing has happened. -/
def start : History := ⟨.start, []⟩

/-- The controller is told of an event that leaves `rest` of the host. -/
def tell (cfg : Controller.Config) (x : History) (surface : Except Failure (Viewport Float))
    (event : Event) (rest : Host) : History :=
  let t : Told := ⟨x.host.controller, surface, event⟩
  ⟨rest.absorb (t.outcome cfg), x.told ++ [t]⟩

/-- The call at a position is answered, if it waits for an answer and the answer is one to it. -/
def answer (x : History) (i : Nat) (ending : Event) : History :=
  match x.host.flights[i]? with
  | some f =>
    if h : f.ending.isNone = true ∧ f.call.endsIn ending = true then
      { x with host := x.host.answered i f ending h.2 }
    else x
  | none => x

/-- One turn. -/
def next (cfg : Controller.Config) (x : History) (turn : Turn Event) : History :=
  match turn.move with
  | .answer i ending => x.answer i ending
  | move =>
    match x.host.offer? move with
    | some (event, rest) => x.tell cfg turn.surface event rest
    | none => x

/-- What becomes of a controller in some turns. -/
def run (cfg : Controller.Config) (turns : List (Turn Event)) : History :=
  turns.foldl (next cfg) start

/-- **What a turn does**: nothing, or it answers a call, or it tells the controller something that
the host offers. -/
theorem next_cases (cfg : Controller.Config) (x : History) (turn : Turn Event) :
    x.next cfg turn = x ∨
      (∃ i f ending, ∃ hf : f.call.endsIn ending = true, x.host.flights[i]? = some f ∧
        f.ending = none ∧ x.next cfg turn = { x with host := x.host.answered i f ending hf }) ∨
      ∃ event rest, x.host.Offers event rest ∧
        x.next cfg turn = x.tell cfg turn.surface event rest := by
  obtain ⟨surface, move⟩ := turn
  have told : ∀ move' : Move Event, (match x.host.offer? move' with
      | some (event, rest) => x.tell cfg surface event rest
      | none => x) = x.next cfg ⟨surface, move⟩ →
      x.next cfg ⟨surface, move⟩ = x ∨ ∃ event rest, x.host.Offers event rest ∧
        x.next cfg ⟨surface, move⟩ = x.tell cfg surface event rest := by
    intro move' h
    rw [← h]
    split
    · rename_i event rest he
      exact .inr ⟨event, rest, Host.offers_of_offer? he, rfl⟩
    · exact .inl rfl
  cases move with
  | answer i ending =>
    simp only [next, answer]
    split
    · rename_i f hi
      split
      · rename_i hf
        exact .inr (.inl ⟨i, f, ending, hf.2, hi, Option.isNone_iff_eq_none.mp hf.1, rfl⟩)
      · exact .inl rfl
    · exact .inl rfl
  | operate event => exact (told _ rfl).imp_right .inr
  | retry i => exact (told _ rfl).imp_right .inr
  | settle i => exact (told _ rfl).imp_right .inr

/-- What holds before a turn holds after it, if an answer and all that the host offers keep it. -/
theorem next_keeps {P : History → Prop} {x : History} (hx : P x)
    (answered : ∀ i f ending (hf : f.call.endsIn ending = true), x.host.flights[i]? = some f →
      f.ending = none → P { x with host := x.host.answered i f ending hf })
    (tell : ∀ surface event rest, x.host.Offers event rest → P (x.tell cfg surface event rest))
    (turn : Turn Event) : P (x.next cfg turn) := by
  rcases next_cases cfg x turn with h | ⟨i, f, ending, hf, hi, hn, h⟩ | ⟨event, rest, ho, h⟩
  · rw [h]
    exact hx
  · rw [h]
    exact answered i f ending hf hi hn
  · rw [h]
    exact tell turn.surface event rest ho

/-- **Run induction.** -/
theorem run_induction {P : History → Prop} (hstart : P start)
    (answered : ∀ x i f ending (hf : f.call.endsIn ending = true), P x →
      x.host.flights[i]? = some f → f.ending = none →
      P { x with host := x.host.answered i f ending hf })
    (tell : ∀ x surface event rest, P x → x.host.Offers event rest →
      P (x.tell cfg surface event rest))
    (turns : List (Turn Event)) : P (run cfg turns) := by
  unfold run
  suffices ∀ (ts : List (Turn Event)) (x : History), P x → P (ts.foldl (next cfg) x) from
    this turns start hstart
  intro ts
  induction ts with
  | nil => intro x hx; exact hx
  | cons t ts ih =>
    intro x hx
    exact ih _ (next_keeps hx (fun i f ending hf => answered x i f ending hf hx)
      (fun surface event rest => tell x surface event rest hx) t)

/-- What the surface measured when the controller was told something was part of a turn. -/
theorem surface_of_mem_told {turns : List (Turn Event)} {t : Told}
    (ht : t ∈ (run cfg turns).told) : ∃ turn ∈ turns, turn.surface = t.surface := by
  suffices ∀ (ts : List (Turn Event)) (x : History), t ∈ (ts.foldl (next cfg) x).told →
      t ∈ x.told ∨ ∃ turn ∈ ts, turn.surface = t.surface by
    rcases this turns start ht with h | h
    · cases h
    · exact h
  intro ts
  induction ts with
  | nil => intro x h; exact .inl h
  | cons turn ts ih =>
    intro x h
    rcases ih _ h with h | ⟨later, hl, hs⟩
    · rcases next_cases cfg x turn with hn | ⟨i, f, ending, hf, -, -, hn⟩ | ⟨event, rest, -, hn⟩
      · rw [hn] at h
        exact .inl h
      · rw [hn] at h
        exact .inl h
      · rw [hn] at h
        rcases List.mem_append.mp h with h | h
        · exact .inl h
        · rw [List.mem_singleton.mp h]
          exact .inr ⟨turn, List.mem_cons_self, rfl⟩
    · exact .inr ⟨later, List.mem_cons_of_mem _ hl, hs⟩

/-- A run of more turns goes on from the shorter run. -/
theorem run_append (turns more : List (Turn Event)) :
    run cfg (turns ++ more) = more.foldl (next cfg) (run cfg turns) := by
  unfold run
  rw [List.foldl_append]

end History

/-! ## What leads from one controller to another -/

/-- `Leads cfg c told c'`: a controller that was `c`, and was told all of `told` in order, is `c'`
now. -/
def Leads (cfg : Controller.Config) (c : Controller) : List Told → Controller → Prop
  | [], c' => c' = c
  | t :: ts, c' => t.before = c ∧ Leads cfg (t.after cfg) ts c'

namespace Leads

variable {cfg : Controller.Config} {c c' : Controller} {told : List Told} {t : Told}

theorem concat (h : Leads cfg c told t.before) : Leads cfg c (told ++ [t]) (t.after cfg) := by
  induction told generalizing c with
  | nil => exact ⟨h, rfl⟩
  | cons s told ih => exact ⟨h.1, ih h.2⟩

/-- Where a stretch is split, both parts lead on. -/
theorem split {past later : List Told} (h : Leads cfg c (past ++ t :: later) c') :
    Leads cfg c past t.before ∧ Leads cfg (t.after cfg) later c' := by
  induction past generalizing c with
  | nil => exact ⟨h.1, h.2⟩
  | cons s past ih =>
    obtain ⟨hpast, hlater⟩ := ih h.2
    exact ⟨⟨h.1, hpast⟩, hlater⟩

/-- **What every step on the way keeps holds at the end.** -/
theorem keeps {P : Controller → Prop} (h : Leads cfg c told c')
    (step : ∀ t ∈ told, P t.before → P (t.after cfg)) (hc : P c) : P c' := by
  induction told generalizing c with
  | nil =>
    rw [show c' = c from h]
    exact hc
  | cons t told ih =>
    obtain ⟨hbefore, hrest⟩ := h
    refine ih hrest (fun s hs => step s (List.mem_cons_of_mem _ hs)) ?_
    exact step t List.mem_cons_self (hbefore ▸ hc)

end Leads

/-- All that a controller was told leads from its start to what it is now. -/
theorem History.leads_run (cfg : Controller.Config) (turns : List (Turn Event)) :
    Leads cfg .initial (run cfg turns).told (run cfg turns).host.controller :=
  run_induction (P := fun x => Leads cfg .initial x.told x.host.controller) rfl
    (fun _ _ _ _ _ hx _ _ => hx) (fun _ _ _ _ hx _ => Leads.concat hx) turns

end Honeycomb
