import Honeycomb.Controller.Session
import Honeycomb.Proofs.Controller.Refresh

/-!
# No edit is lost

A controller whose service keeps a list of modules that only the controller's own edits change.  A
call takes effect, or takes its snapshot of the list, at one instant between its start and its end;
calls overlap, are answered and end in any order, and none fails.

* `Backend` — such a service: what a fetch gives, and what an edit does to the list.
* `Served.run` — a controller and the state of its service in some turns.  A list from elsewhere is
  drawn at most before the first refresh.
* `ServedInv` — while the list drawn is not the service's own, an edit is on its way to start
  another refresh, or the latest fetch has yet to take its snapshot, or has taken it from the list
  as it is.
* `modules_eq_list_of_quiet` — once nothing is under way, the controller has the service's list.
-/

set_option autoImplicit false

namespace Honeycomb

/-- A service that answers every call, with states `σ`. -/
structure Backend (σ : Type) where
  /-- What a fetch gives. -/
  list : σ → List Module
  /-- Whether a toggle is accepted, and the state after it. -/
  toggle : Text → σ → Bool × σ
  /-- Whether an update is accepted, and the state after it. -/
  update : Text → Fields Setting → σ → Bool × σ

namespace Backend

variable {σ : Type}

/-- The answer to a call, and the state after it. -/
def answer (b : Backend σ) (s : σ) : Call → Event × σ
  | .fetch refresh => (.fetched refresh (.ok (b.list s)), s)
  | .toggle name => (.toggled name (.ok (b.toggle name s).1), (b.toggle name s).2)
  | .update name fields =>
    (.saved name (.ok (b.update name fields s).1), (b.update name fields s).2)

/-- Modules kept in memory are such a service. -/
def ofStore : Backend Store :=
  { list := Store.fetch
    toggle := fun name s => s.toggle name
    update := fun name fields s => s.update name fields }

/-- It answers as a session with a store does. -/
theorem ofStore_answer (s : Store) (call : Call) :
    ofStore.answer s call = Session.answerOfStore s call := by
  cases call <;> rfl

theorem endsIn_answer (b : Backend σ) (s : σ) (call : Call) :
    call.endsIn (b.answer s call).1 = true := by
  cases call <;> simp [answer, Call.endsIn]

end Backend

/-- Whether an event brings no failure of the service. -/
def Event.succeeded : Event → Bool
  | .fetched _ (.error _) | .toggled _ (.error _) | .saved _ (.error _) => false
  | _ => true

/-- Whether an event brings no list from elsewhere, once there was a refresh. -/
def Event.keepsList (c : Controller) : Event → Bool
  | .recompute modules => modules == c.modules || c.refreshes == 0
  | _ => true

/-- A controller with its past, and the state of its service. -/
structure Served (σ : Type) where
  history : History
  state : σ

namespace Served

variable {σ : Type} {cfg : Controller.Config} {b : Backend σ}

/-- The service answers the call at a position. -/
def answered (b : Backend σ) (x : Served σ) (i : Nat) (f : Flight) : Served σ :=
  let host := x.history.host.answered i f (b.answer x.state f.call).1
    (b.endsIn_answer x.state f.call)
  ⟨⟨host, x.history.told⟩, (b.answer x.state f.call).2⟩

/-- One turn: it is the service that answers, and not the turn. -/
def next (cfg : Controller.Config) (b : Backend σ) (x : Served σ) (turn : Turn Unit) : Served σ :=
  match turn.move with
  | .answer i _ =>
    match x.history.host.flights[i]? with
    | some f => if f.ending.isNone then x.answered b i f else x
    | none => x
  | move =>
    match x.history.host.offer? move with
    | some (event, rest) =>
      if event.keepsList x.history.host.controller then
        { x with history := x.history.tell cfg turn.surface event rest }
      else x
    | none => x

/-- What becomes of a controller and its service in some turns. -/
def run (cfg : Controller.Config) (b : Backend σ) (s : σ) (turns : List (Turn Unit)) : Served σ :=
  turns.foldl (next cfg b) ⟨.start, s⟩

/-- **Run induction**, with the service's own answers. -/
theorem run_induction {P : Served σ → Prop} {s : σ} (hstart : P ⟨.start, s⟩)
    (answered : ∀ (x : Served σ) i f, P x → x.history.host.flights[i]? = some f →
      f.ending = none → P (x.answered b i f))
    (tell : ∀ (x : Served σ) surface event rest, P x → x.history.host.Offers event rest →
      event.keepsList x.history.host.controller = true →
      P ⟨x.history.tell cfg surface event rest, x.state⟩)
    (turns : List (Turn Unit)) : P (run cfg b s turns) := by
  unfold run
  suffices ∀ (ts : List (Turn Unit)) (x : Served σ), P x → P (ts.foldl (next cfg b) x) from
    this turns _ hstart
  intro ts
  induction ts with
  | nil => intro x hx; exact hx
  | cons t ts ih =>
    intro x hx
    refine ih _ ?_
    unfold next
    split
    · split
      · rename_i f hi
        split
        · rename_i hf
          exact answered x _ f hx hi (Option.isNone_iff_eq_none.mp hf)
        · exact hx
      · exact hx
    · split
      · rename_i event rest he
        split
        · rename_i hk
          exact tell x t.surface event rest hx (Host.offers_of_offer? he) hk
        · exact hx
      · exact hx

end Served

namespace Controller

/-- **How the list that is drawn changes**: to a list from elsewhere, or to what the latest fetch
gave. -/
theorem step_modules (cfg : Config) (surface : Except Failure (Viewport Float)) (c : Controller)
    (event : Event) :
    (c.step cfg surface event).controller.modules = c.modules ∨
      (∃ modules, event = .recompute modules ∧
        (c.step cfg surface event).controller.modules = modules) ∨
      (∃ modules, event = .fetched c.refreshes (.ok modules) ∧
        (c.step cfg surface event).controller.modules = modules) := by
  rw [modules_step]
  cases event with
  | recompute modules => exact .inr (.inl ⟨modules, rfl, rfl⟩)
  | fetched refresh result =>
    cases result with
    | error failure => exact .inl rfl
    | ok modules =>
      by_cases latest : refresh = c.refreshes
      · subst latest
        exact .inr (.inr ⟨modules, rfl, by simp [brings?]⟩)
      · exact .inl (by simp [brings?, latest])
  | _ => exact .inl rfl

/-- The end of an edit that did not fail starts a refresh, whether it was accepted or not. -/
theorem refreshes_step_of_edit {cfg : Config} {surface : Except Failure (Viewport Float)}
    {c : Controller} {call : Call} {event : Event} (hedit : call.refresh? = none)
    (hends : call.endsIn event = true) (hok : event.succeeded = true) :
    (c.step cfg surface event).controller.refreshes = c.refreshes + 1 := by
  cases call with
  | fetch refresh => cases hedit
  | toggle name =>
    cases event with
    | toggled toggled result =>
      cases result with
      | error failure => cases hok
      | ok accepted => cases accepted <;> rfl
    | _ => cases hends
  | update name fields =>
    cases event with
    | saved saved result =>
      cases result with
      | error failure => cases hok
      | ok accepted => cases accepted <;> rfl
    | _ => cases hends

end Controller

namespace Host

variable {h rest : Host} {event : Event}

/-- A call under way stays under way, or the controller was told how it ended. -/
theorem Offers.flight_mem (ho : h.Offers event rest) {f : Flight} (hf : f ∈ h.flights) :
    f ∈ rest.flights ∨ f.ending = some event := by
  cases ho with
  | operation => exact .inl hf
  | retry => exact .inl hf
  | @settle i f' _ underway ended =>
    obtain ⟨j, hj⟩ := List.mem_iff_getElem?.mp hf
    by_cases hij : j = i
    · rw [hij, underway, Option.some.injEq] at hj
      exact .inr (hj ▸ ended)
    · exact .inl (List.mem_eraseIdx_iff_getElem?.mpr ⟨j, hij, hj⟩)

theorem Offers.flights_subset (ho : h.Offers event rest) {f : Flight} (hf : f ∈ rest.flights) :
    f ∈ h.flights := by
  cases ho with
  | operation => exact hf
  | retry => exact hf
  | settle => exact List.mem_of_mem_eraseIdx hf

end Host

/-- Why the list that is drawn is, or will once more be replaced by, the list `l` of the service. -/
inductive Host.Fresh (h : Host) (l : List Module) : Prop
  /-- An edit is on its way to start another refresh. -/
  | edited {f : Flight} (underway : f ∈ h.flights) (edit : f.call.refresh? = none)
      (ended : f.ending ≠ none)
  /-- The latest fetch has yet to take its snapshot. -/
  | asked {f : Flight} (underway : f ∈ h.flights)
      (latest : f.call = .fetch h.controller.refreshes) (waits : f.ending = none)
  /-- The latest fetch has taken its snapshot from the list as it is. -/
  | taken {f : Flight} (underway : f ∈ h.flights)
      (latest : f.ending = some (.fetched h.controller.refreshes (.ok l)))
  /-- The latest fetch has ended, and its snapshot is the list as it is. -/
  | drawn (settled : h.controller.refreshes ∉ h.fetches) (same : h.controller.modules = l)

/-- A refresh that starts is the latest one, and has yet to take its snapshot. -/
theorem Host.fresh_absorb {rest : Host} {o : Controller.Outcome} {n : Nat}
    (hcalls : o.effects.filterMap Effect.call? = [.fetch n]) (hnumber : o.controller.refreshes = n)
    (l : List Module) : (rest.absorb o).Fresh l := by
  have hmade : Flight.made (.fetch n) ∈ (rest.absorb o).flights := by
    refine List.mem_append_right _ ?_
    rw [hcalls]
    exact List.mem_cons_self
  exact .asked hmade (by rw [← hnumber]; rfl) rfl

/-- Nothing that the service says is a failure, and from the first refresh on the list that is drawn
is the service's own or is about to be replaced. -/
structure ServedInv {σ : Type} (cfg : Controller.Config) (b : Backend σ) (x : Served σ) : Prop where
  refresh : RefreshInv cfg x.history
  endings : ∀ f ∈ x.history.host.flights, ∀ event, f.ending = some event → event.succeeded = true
  fresh : x.history.host.controller.refreshes ≠ 0 → x.history.host.Fresh (b.list x.state)

namespace ServedInv

variable {σ : Type} {cfg : Controller.Config} {b : Backend σ}

theorem start (s : σ) : ServedInv cfg b ⟨.start, s⟩ :=
  ⟨.start, nofun, fun h => absurd rfl h⟩

/-- The service answers a call: if it is an edit, another refresh will follow it. -/
theorem answered {x : Served σ} (hx : ServedInv cfg b x) {i : Nat} {f : Flight}
    (hi : x.history.host.flights[i]? = some f) (hf : f.ending = none) :
    ServedInv cfg b (x.answered b i f) := by
  obtain ⟨hlt, -⟩ := List.getElem?_eq_some_iff.mp hi
  obtain ⟨f', hflights, hcall', hending⟩ : ∃ f' : Flight,
      (x.answered b i f).history.host.flights = x.history.host.flights.set i f' ∧
        f'.call = f.call ∧ f'.ending = some (b.answer x.state f.call).1 := ⟨_, rfl, rfl, rfl⟩
  have hmem : f' ∈ (x.answered b i f).history.host.flights := by
    rw [hflights]
    exact List.mem_set hlt f'
  -- a call that is already answered is another one, and stays as it is
  have hstays : ∀ g ∈ x.history.host.flights, g ≠ f →
      g ∈ (x.answered b i f).history.host.flights := by
    intro g hg hne
    obtain ⟨j, hj⟩ := List.mem_iff_getElem?.mp hg
    have hij : i ≠ j := by
      rintro rfl
      rw [hi, Option.some.injEq] at hj
      exact hne hj.symm
    rw [hflights]
    exact List.mem_of_getElem? (by rw [List.getElem?_set_ne hij, hj])
  refine ⟨hx.refresh.answered _ hi, ?_, ?_⟩
  · intro g hg event he
    rw [hflights] at hg
    rcases List.mem_or_eq_of_mem_set hg with hg | rfl
    · exact hx.endings g hg event he
    · rw [hending, Option.some.injEq] at he
      rw [← he]
      cases f.call <;> rfl
  · intro hr
    cases hcall : f.call with
    | toggle name =>
      exact .edited hmem (by rw [hcall', hcall]; rfl) (by rw [hending]; nofun)
    | update name fields =>
      exact .edited hmem (by rw [hcall', hcall]; rfl) (by rw [hending]; nofun)
    | fetch refresh =>
      -- a fetch leaves the service as it is
      have hstate : (x.answered b i f).state = x.state := by
        simp only [Served.answered, hcall, Backend.answer]
      have hcontroller : (x.answered b i f).history.host.controller = x.history.host.controller :=
        rfl
      rw [hstate]
      cases hx.fresh hr with
      | @edited g underway edit ended =>
        refine .edited (hstays g underway ?_) edit ended
        rintro rfl
        exact ended hf
      | @asked g underway latest waits =>
        by_cases hg : g = f
        · refine .taken hmem ?_
          rw [hcontroller, hending, ← hg, latest, Backend.answer]
        · exact .asked (hstays g underway hg) latest waits
      | @taken g underway latest =>
        refine .taken (hstays g underway ?_) latest
        rintro rfl
        rw [hf] at latest
        cases latest
      | drawn settled same =>
        refine .drawn ?_ same
        rw [show (x.answered b i f).history.host.fetches = x.history.host.fetches from
          Host.fetches_answered _ hi]
        exact settled

section

variable {x : Served σ} {surface : Except Failure (Viewport Float)} {event : Event} {rest : Host}

/-- While no refresh starts, what is to come stays to come, until it is drawn. -/
theorem fresh_of_same (hx : ServedInv cfg b x) (ho : x.history.host.Offers event rest)
    (hk : event.keepsList x.history.host.controller = true)
    (hcount : x.history.host.controller.refreshes ≠ 0) {o : Controller.Outcome}
    (hstep : x.history.host.controller.step cfg surface event = o)
    (hsame : o.controller.refreshes = x.history.host.controller.refreshes)
    (hquiet : (rest.absorb o).fetches = rest.fetches) :
    (rest.absorb o).Fresh (b.list x.state) := by
  have hcontroller : (rest.absorb o).controller = o.controller := rfl
  have hstays : ∀ g ∈ rest.flights, g ∈ (rest.absorb o).flights := fun g hg =>
    List.mem_append_left _ hg
  cases hx.fresh hcount with
  | @edited g underway edit ended =>
    rcases ho.flight_mem underway with hg | hg
    · exact .edited (hstays g hg) edit ended
    · have hnext : (x.history.host.controller.step cfg surface event).controller.refreshes =
          x.history.host.controller.refreshes + 1 :=
        Controller.refreshes_step_of_edit edit (g.ends event hg)
          (hx.endings g underway event hg)
      rw [hstep, hsame] at hnext
      omega
  | @asked g underway latest waits =>
    rcases ho.flight_mem underway with hg | hg
    · exact .asked (hstays g hg) (by rw [hcontroller, hsame]; exact latest) waits
    · rw [waits] at hg
      cases hg
  | @taken g underway latest =>
    rcases ho.flight_mem underway with hg | hg
    · exact .taken (hstays g hg) (by rw [hcontroller, hsame]; exact latest)
    · -- the snapshot is drawn now, and no other fetch of this refresh is under way
      rw [latest, Option.some.injEq] at hg
      subst hg
      have hover := (List.nodup_cons.mp (ho.fetches_perm.nodup_iff.mp hx.refresh.once)).1
      refine .drawn (by rw [hcontroller, hsame, hquiet]; exact hover) ?_
      rw [hcontroller, ← hstep, Controller.modules_step, Controller.brings?, if_pos rfl]
      rfl
  | drawn settled same =>
    refine .drawn ?_ ?_
    · rw [hcontroller, hsame, hquiet]
      exact fun h => settled (ho.fetches_sublist.subset h)
    rw [hcontroller, ← hstep, ← same]
    rcases Controller.step_modules cfg surface x.history.host.controller event with
      h | ⟨modules, rfl, h⟩ | ⟨modules, rfl, h⟩
    · exact h
    · rw [h]
      simpa [Event.keepsList, hcount] using hk
    · exact absurd (ho.fetches_perm.symm.subset List.mem_cons_self) settled

/-- The controller is told of something: a list that is drawn from then on is the service's own, or
another refresh starts. -/
theorem tell (hx : ServedInv cfg b x) (ho : x.history.host.Offers event rest)
    (hk : event.keepsList x.history.host.controller = true) :
    ServedInv cfg b ⟨x.history.tell cfg surface event rest, x.state⟩ := by
  generalize hstep : x.history.host.controller.step cfg surface event = o
  have hhost : (x.history.tell cfg surface event rest).host = rest.absorb o := by
    rw [← hstep]; rfl
  refine ⟨hx.refresh.tell ho, ?_, ?_⟩
  · intro g hg event' he
    rw [hhost] at hg
    rcases List.mem_append.mp hg with hg | hg
    · exact hx.endings g (ho.flights_subset hg) event' he
    · obtain ⟨call, -, rfl⟩ := List.mem_map.mp hg
      cases he
  · intro hr
    rw [hhost] at hr ⊢
    have hfetches := Host.fetches_absorb rest o
    have hcalls := Controller.step_calls cfg surface x.history.host.controller event
    rw [hstep] at hcalls
    rcases hcalls with ⟨hcalls, hsame⟩ | ⟨call, hcalls, hcall, hsame⟩ | ⟨hcalls, hnumber, -⟩
    · rw [hcalls] at hfetches
      have hcount : x.history.host.controller.refreshes ≠ 0 := hsame ▸ hr
      exact hx.fresh_of_same ho hk hcount hstep hsame (by simpa using hfetches)
    · rw [hcalls] at hfetches
      have hsame : o.controller.refreshes = x.history.host.controller.refreshes := by rw [hsame]
      have hcount : x.history.host.controller.refreshes ≠ 0 := hsame ▸ hr
      exact hx.fresh_of_same ho hk hcount hstep hsame (by simpa [hcall] using hfetches)
    · exact Host.fresh_absorb hcalls hnumber _

end

end ServedInv

namespace Served

variable {σ : Type}

theorem servedInv_run (cfg : Controller.Config) (b : Backend σ) (s : σ)
    (turns : List (Turn Unit)) : ServedInv cfg b (run cfg b s turns) :=
  run_induction (.start s) (fun _ _ _ hx hi hf => hx.answered hi hf)
    (fun _ _ _ _ hx ho hk => hx.tell ho hk) turns

end Served

/-- **No edit is lost.**  Once no call is under way and a refresh was started, the list that the
controller has is what a fetch would give now. -/
theorem modules_eq_list_of_quiet {σ : Type} (cfg : Controller.Config) (b : Backend σ) (s : σ)
    (turns : List (Turn Unit))
    (quiet : (Served.run cfg b s turns).history.host.flights = [])
    (refreshed : (Served.run cfg b s turns).history.started cfg ≠ []) :
    (Served.run cfg b s turns).history.host.controller.modules =
      b.list (Served.run cfg b s turns).state := by
  have hx := Served.servedInv_run cfg b s turns
  generalize Served.run cfg b s turns = x at hx quiet refreshed ⊢
  have hcount : x.history.host.controller.refreshes ≠ 0 := by
    intro h
    rw [hx.refresh.numbered, h] at refreshed
    exact refreshed rfl
  cases hx.fresh hcount with
  | edited underway => rw [quiet] at underway; cases underway
  | asked underway => rw [quiet] at underway; cases underway
  | taken underway => rw [quiet] at underway; cases underway
  | drawn settled same => exact same

/-- A toggle and a save overlap with three fetches, and the newest fetch is the first one to end. -/
def overlappingEdits : List (Turn Unit) :=
  ([.operate .refresh, .operate (.toggle "a"), .answer 0 (), .answer 1 (), .settle 1,
    .operate (.save "a" [("rate", "5")]), .answer 1 (), .answer 2 (), .settle 2, .answer 2 (),
    .settle 2, .settle 1, .settle 0] : List (Move Unit)).map fun move => ⟨.ok ⟨0, 0⟩, move⟩

/-- One module, with nothing set. -/
def singleton : Store := ⟨[⟨"a", true, false, []⟩]⟩

theorem modules_of_overlappingEdits :
    (Served.run .default .ofStore singleton overlappingEdits).history.host.flights = [] ∧
      (Served.run .default .ofStore singleton overlappingEdits).history.started .default =
        [1, 2, 3] ∧
      (Served.run .default .ofStore singleton overlappingEdits).history.host.controller.modules =
        [⟨"a", false, false, [("rate", .number 5)]⟩] := by
  have quiet : (Served.run .default .ofStore singleton overlappingEdits).history.host.flights =
      [] := by decide +kernel
  have started : (Served.run .default .ofStore singleton overlappingEdits).history.started
      .default = [1, 2, 3] := by decide +kernel
  refine ⟨quiet, started, ?_⟩
  rw [modules_eq_list_of_quiet .default .ofStore singleton overlappingEdits quiet
    (by rw [started]; nofun)]
  decide +kernel

end Honeycomb
