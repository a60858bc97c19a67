import Mathlib.Algebra.Ring.Parity
import Mathlib.Data.List.Forall2
import Mathlib.Data.List.Induction
import Mathlib.Data.List.Nodup
import Honeycomb.Proofs.Editing
import Honeycomb.Proofs.Fields

/-!
# A store is a module for each name

Modules with distinct names do not get into each other's way: an edit acts on the one module that it
names and on no other.

* `Edit.act` — what an edit does to a module, whichever it is.
* `edit_spec` — one edit of a store acts on each of its modules, and is accepted if there is a
  module for it.
* `Settled` — what a module is after some edits, told by its flag, its settings and the edits alone;
  `Settled.act` is the step and `settled_foldl` the run.
* `Edit.Independent`, `act_comm` — edits that can be made in either order.
* `run_settled` — so a store gives what was last said of each module, in order.
-/

set_option autoImplicit false

namespace Honeycomb

/-! ## Edits of a module -/

namespace Edit

def name : Edit → Text
  | .toggle name => name
  | .update name _ => name

/-- What an edit does to a module: nothing, if the module has another name or a toggle finds it to
be core. -/
def act : Edit → Module → Module
  | .toggle name, m =>
    if m.name = name ∧ m.isCore = false then { m with enabled := !m.enabled } else m
  | .update name fields, m =>
    if m.name = name then { m with settings := m.settings.merge fields } else m

/-- Whether an edit is a toggle of the modules of a name. -/
def flips (name : Text) : Edit → Bool
  | .toggle other => other == name
  | .update _ _ => false

/-- The value that an edit gives to a key of the modules of a name. -/
def value? (name key : Text) : Edit → Option Setting
  | .toggle _ => none
  | .update other fields => if other = name then fields.last? key else none

@[simp] theorem name_act (e : Edit) (m : Module) : (e.act m).name = m.name := by
  cases e <;> simp only [act] <;> split <;> rfl

@[simp] theorem isCore_act (e : Edit) (m : Module) : (e.act m).isCore = m.isCore := by
  cases e <;> simp only [act] <;> split <;> rfl

theorem act_of_name_ne {e : Edit} {m : Module} (h : m.name ≠ e.name) : e.act m = m := by
  cases e with
  | toggle name => exact if_neg fun hname => h hname.1
  | update name fields => exact if_neg h

theorem enabled_act (e : Edit) (m : Module) :
    (e.act m).enabled = (m.enabled ^^ (!m.isCore && e.flips m.name)) := by
  cases e with
  | toggle name =>
    by_cases hname : m.name = name
    · cases hcore : m.isCore <;> simp [act, flips, hname, hcore]
    · have hother : (name == m.name) = false := beq_eq_false_iff_ne.mpr (Ne.symm hname)
      simp [act, flips, hname, hother]
  | update name fields =>
    simp only [act, flips, Bool.and_false, Bool.xor_false]
    split <;> rfl

theorem get?_settings_act (e : Edit) (m : Module) (key : Text) :
    (e.act m).settings.get? key = (e.value? m.name key).or (m.settings.get? key) := by
  cases e with
  | toggle name =>
    simp only [act, value?, Option.none_or]
    split <;> rfl
  | update name fields =>
    by_cases hname : m.name = name
    · simp only [act, value?, hname, if_true, Fields.get?_merge]
    · simp only [act, value?, if_neg hname, if_neg (Ne.symm hname), Option.none_or]

theorem distinct_settings_act (e : Edit) {m : Module} (h : m.settings.Distinct) :
    (e.act m).settings.Distinct := by
  cases e <;> simp only [act] <;> split
  · exact h
  · exact h
  · exact Fields.distinct_merge h _
  · exact h

/-- Two edits are independent if they are for different modules, or one is for the flag and the
other for the settings. -/
inductive Independent : Edit → Edit → Prop
  | names {e e' : Edit} : e.name ≠ e'.name → Independent e e'
  | flagAndSettings (name : Text) (fields : Fields Setting) :
      Independent (.toggle name) (.update name fields)

/-- **Independent edits can be made in either order.** -/
theorem act_comm {e e' : Edit} (h : Independent e e') (m : Module) :
    e.act (e'.act m) = e'.act (e.act m) := by
  cases h with
  | names hne =>
    by_cases hname : m.name = e.name
    · have hother : m.name ≠ e'.name := fun hname' => hne (hname.symm.trans hname')
      have hother' : (e.act m).name ≠ e'.name := by rwa [name_act]
      rw [act_of_name_ne hother, act_of_name_ne hother']
    · have hname' : (e'.act m).name ≠ e.name := by rwa [name_act]
      rw [act_of_name_ne hname, act_of_name_ne hname']
  | flagAndSettings name fields =>
    by_cases hname : m.name = name <;> by_cases hcore : m.isCore = false <;>
      simp [act, hname, hcore]

end Edit

/-- What a module is after some edits.  Its flag has changed if it is not core and an odd number of
toggles named it; a key of its settings has the value of the last update that gave it one, or else
the value that it had; and all else is as it was. -/
structure Module.Settled (edits : List Edit) (m m' : Module) : Prop where
  name : m'.name = m.name
  isCore : m'.isCore = m.isCore
  enabled : m'.enabled ≠ m.enabled ↔ m.isCore = false ∧ Odd (edits.countP (Edit.flips m.name))
  settings : ∀ key, m'.settings.get? key =
    (edits.reverse.findSome? (Edit.value? m.name key)).or (m.settings.get? key)
  distinct : m.settings.Distinct → m'.settings.Distinct

namespace Module

variable {edits : List Edit} {m m' : Module}

theorem settled_nil (m : Module) : Settled [] m m where
  name := rfl
  isCore := rfl
  enabled := by simp
  settings _ := rfl
  distinct := id

/-- **One more edit.** -/
theorem Settled.act (h : Settled edits m m') (e : Edit) : Settled (edits ++ [e]) m (e.act m') where
  name := (e.name_act m').trans h.name
  isCore := (e.isCore_act m').trans h.isCore
  enabled := by
    have hflag := h.enabled
    rw [e.enabled_act, h.name, h.isCore, List.countP_append, List.countP_singleton]
    cases hflips : e.flips m.name with
    | false => simpa using hflag
    | true =>
      cases hcore : m.isCore with
      | true => simpa [hcore] using hflag
      | false =>
        -- one more toggle changes the flag once more
        simp only [hcore, true_and] at hflag
        rw [if_pos rfl, Nat.odd_add_one, ← hflag]
        cases m'.enabled <;> cases m.enabled <;> simp
  settings key := by
    rw [e.get?_settings_act, h.name, h.settings, List.reverse_append, List.reverse_singleton,
      List.singleton_append, List.findSome?_cons]
    cases e.value? m.name key <;> rfl
  distinct hm := e.distinct_settings_act (h.distinct hm)

/-- **All edits, one after the other.** -/
theorem settled_foldl (edits : List Edit) (m : Module) :
    Settled edits m (edits.foldl (fun m e => e.act m) m) := by
  induction edits using List.reverseRecOn with
  | nil => exact settled_nil m
  | append_singleton edits e ih =>
    rw [List.foldl_append]
    exact ih.act e

end Module

/-! ## Edits of a store -/

namespace Store

variable {s : Store}

/-- No two modules have one name. -/
def DistinctNames (s : Store) : Prop := (s.modules.map (·.name)).Nodup

instance (s : Store) : Decidable s.DistinctNames := inferInstanceAs (Decidable (List.Nodup _))

/-- Whether there is a module for an edit: one of its name, which a toggle needs to be not core. -/
def Accepts (s : Store) : Edit → Prop
  | .toggle name => ∃ m ∈ s.modules, m.name = name ∧ m.isCore = false
  | .update name _ => ∃ m ∈ s.modules, m.name = name

/-- What is said to some edits made one after the other. -/
def answers (s : Store) : List Edit → List Bool
  | [] => []
  | e :: edits => (s.edit e).1 :: answers (s.edit e).2 edits

theorem find?_eq_some_iff (hs : s.DistinctNames) {name : Text} {m : Module} :
    s.find? name = some m ↔ m ∈ s.modules ∧ m.name = name := by
  unfold find?
  constructor
  · intro hfind
    exact ⟨List.mem_of_find?_eq_some hfind, by simpa using List.find?_some hfind⟩
  · rintro ⟨hm, hname⟩
    cases hfind : s.modules.find? (·.name == name) with
    | none => exact absurd (by simpa using hname) (List.find?_eq_none.mp hfind m hm)
    | some other =>
      have hother : other.name = name := by simpa using List.find?_some hfind
      rw [List.inj_on_of_nodup_map hs (List.mem_of_find?_eq_some hfind) hm
        (hother.trans hname.symm)]

theorem find?_eq_none_iff {name : Text} :
    s.find? name = none ↔ ∀ m ∈ s.modules, m.name ≠ name := by
  simp [find?]

/-- Among modules with distinct names, the first one of a name is all of them. -/
theorem modifyFirst_eq_map {ms : List Module} (h : (ms.map (·.name)).Nodup) (name : Text)
    (f : Module → Module) :
    modifyFirst name f ms = ms.map fun m => if m.name = name then f m else m := by
  induction ms with
  | nil => rfl
  | cons m ms ih =>
    obtain ⟨hnew, hrest⟩ := List.nodup_cons.mp h
    rw [modifyFirst, List.map_cons]
    by_cases hname : m.name = name
    · rw [if_pos (by simpa using hname), if_pos hname]
      refine congrArg (f m :: ·) ((List.map_id ms).symm.trans (List.map_congr_left ?_))
      intro other hother
      have hne : other.name ≠ name := by
        rintro rfl
        exact hnew (List.mem_map.mpr ⟨other, hother, hname.symm⟩)
      rw [if_neg hne]
      rfl
    · rw [if_neg (by simpa using hname), if_neg hname, ih hrest]

/-- **An edit of a store acts on each of its modules**, and it is accepted if there is a module for
it. -/
theorem edit_spec (hs : s.DistinctNames) (e : Edit) :
    (s.edit e).2.modules = s.modules.map e.act ∧ ((s.edit e).1 = true ↔ s.Accepts e) := by
  have hsame : (∀ m ∈ s.modules, e.act m = m) → s.modules = s.modules.map e.act := fun h =>
    ((List.map_congr_left h).trans (List.map_id _)).symm
  cases e with
  | toggle name =>
    simp only [edit, toggle, Accepts]
    cases hfind : s.find? name with
    | none =>
      have hnone := find?_eq_none_iff.mp hfind
      refine ⟨hsame fun m hm => Edit.act_of_name_ne (hnone m hm),
        iff_of_false Bool.false_ne_true ?_⟩
      rintro ⟨m, hm, hname, -⟩
      exact hnone m hm hname
    | some m =>
      -- `m` is the only module of its name
      have honly : ∀ m' ∈ s.modules, m'.name = name → m' = m := fun m' hm' hname' =>
        Option.some.inj (((find?_eq_some_iff hs).mpr ⟨hm', hname'⟩).symm.trans hfind)
      obtain ⟨hm, hname⟩ := (find?_eq_some_iff hs).mp hfind
      cases hcore : m.isCore with
      | true =>
        dsimp only
        rw [if_pos hcore]
        refine ⟨hsame fun m' hm' => if_neg ?_, iff_of_false Bool.false_ne_true ?_⟩
        · rintro ⟨hname', hcore'⟩
          rw [honly m' hm' hname', hcore] at hcore'
          cases hcore'
        · rintro ⟨m', hm', hname', hcore'⟩
          rw [honly m' hm' hname', hcore] at hcore'
          cases hcore'
      | false =>
        dsimp only
        rw [if_neg (by rw [hcore]; exact Bool.false_ne_true)]
        refine ⟨(modifyFirst_eq_map hs name _).trans (List.map_congr_left fun m' hm' => ?_),
          iff_of_true rfl ⟨m, hm, hname, hcore⟩⟩
        by_cases hname' : m'.name = name
        · have hcore' : m'.isCore = false := by rw [honly m' hm' hname', hcore]
          rw [Edit.act, if_pos hname', if_pos ⟨hname', hcore'⟩]
        · rw [Edit.act, if_neg hname', if_neg fun h => hname' h.1]
  | update name fields =>
    simp only [edit, update, Accepts]
    cases hfind : s.find? name with
    | none =>
      have hnone := find?_eq_none_iff.mp hfind
      refine ⟨hsame fun m hm => Edit.act_of_name_ne (hnone m hm),
        iff_of_false Bool.false_ne_true ?_⟩
      rintro ⟨m, hm, hname⟩
      exact hnone m hm hname
    | some m =>
      obtain hm := (find?_eq_some_iff hs).mp hfind
      exact ⟨modifyFirst_eq_map hs name _, iff_of_true rfl ⟨m, hm⟩⟩

theorem DistinctNames.edit (hs : s.DistinctNames) (e : Edit) : (s.edit e).2.DistinctNames := by
  have hnames : ((·.name) ∘ e.act : Module → Text) = (·.name) := funext e.name_act
  rw [DistinctNames, (edit_spec hs e).1, List.map_map, hnames]
  exact hs

theorem accepts_edit_iff (hs : s.DistinctNames) (e e' : Edit) :
    (s.edit e).2.Accepts e' ↔ s.Accepts e' := by
  cases e' <;> simp [Accepts, (edit_spec hs e).1]

/-- **A run of edits acts on each module, and its answers depend on the first modules alone.** -/
theorem run_spec (hs : s.DistinctNames) (edits : List Edit) :
    (s.run edits).modules = s.modules.map (fun m => edits.foldl (fun m e => e.act m) m) ∧
      List.Forall₂ (fun e answer => answer = true ↔ s.Accepts e) edits (s.answers edits) := by
  induction edits generalizing s with
  | nil => exact ⟨(List.map_id _).symm, .nil⟩
  | cons e edits ih =>
    obtain ⟨hmodules, hanswer⟩ := edit_spec hs e
    obtain ⟨hrun, hanswers⟩ := ih (hs.edit e)
    refine ⟨?_, .cons hanswer (hanswers.imp fun e' answer h => h.trans (accepts_edit_iff hs e e'))⟩
    have hfirst : (s.run (e :: edits)).modules = ((s.edit e).2.run edits).modules := rfl
    rw [hfirst, hrun, hmodules, List.map_map]
    rfl

theorem DistinctNames.run (hs : s.DistinctNames) (edits : List Edit) :
    (s.run edits).DistinctNames := by
  induction edits generalizing s with
  | nil => exact hs
  | cons e edits ih => exact ih (hs.edit e)

/-- **Independent edits commute**: the store afterwards and what is said to each are the same. -/
theorem run_comm (hs : s.DistinctNames) {e e' : Edit} (h : e.Independent e') :
    s.run [e, e'] = s.run [e', e] ∧ s.answers [e, e'] = (s.answers [e', e]).reverse := by
  have hmodules : ∀ edits : List Edit, s.run edits =
      ⟨s.modules.map fun m => edits.foldl (fun m e => e.act m) m⟩ := fun edits =>
    congrArg Store.mk (run_spec hs edits).1
  have hsaid : ∀ {t : Store} (d : Edit), t.DistinctNames →
      (∀ d', t.Accepts d' ↔ s.Accepts d') → (t.edit d).1 = (s.edit d).1 := fun d ht hsame =>
    Bool.eq_iff_iff.mpr (((edit_spec ht d).2.trans (hsame d)).trans (edit_spec hs d).2.symm)
  constructor
  · rw [hmodules, hmodules]
    exact congrArg Store.mk (List.map_congr_left fun m _ => (Edit.act_comm h m).symm)
  · show [(s.edit e).1, ((s.edit e).2.edit e').1] = [((s.edit e').2.edit e).1, (s.edit e').1]
    rw [hsaid e' (hs.edit e) fun d => accepts_edit_iff hs e d,
      hsaid e (hs.edit e') fun d => accepts_edit_iff hs e' d]

/-- **A store is a module for each name.**  To each edit of a run the store says whether there is a
module for it.  It then gives, in order, a module for each that it had: with the name and the core
flag that it had, its flag changed if it is not core and an odd number of toggles named it, and each
key of its settings with the value of the last update that had the key, or else with the value that
it had before.  At any point of the run, edits of different modules can be made in either order, and
so can a toggle and an update of one module. -/
theorem run_settled (s : Store) (hs : s.DistinctNames) (edits : List Edit) :
    List.Forall₂ (fun e answer => answer = true ↔ s.Accepts e) edits (s.answers edits) ∧
      (∃ ms, (s.run edits).fetch = Module.sort ms ∧
        List.Forall₂ (Module.Settled edits) s.modules ms) ∧
      ∀ e e' : Edit, e.Independent e' →
        (s.run edits).run [e, e'] = (s.run edits).run [e', e] ∧
          (s.run edits).answers [e, e'] = ((s.run edits).answers [e', e]).reverse := by
  obtain ⟨hmodules, hanswers⟩ := run_spec hs edits
  refine ⟨hanswers, ⟨_, congrArg Module.sort hmodules, ?_⟩, fun e e' => run_comm (hs.run edits)⟩
  rw [List.forall₂_map_right_iff, List.forall₂_same]
  exact fun m _ => Module.settled_foldl edits m

/-- Two modules, one of them core. -/
def catalogue : Store :=
  ⟨[⟨"cache", true, false, [(.ofString "size", .number 1)]⟩, ⟨"server", true, true, []⟩]⟩

/-- Edits of both, and of a module that is not there. -/
def mixedEdits : List Edit :=
  [.toggle "cache", .toggle "server",
    .update "cache" [(.ofString "size", .number 2), ("mode", .text "lru")], .toggle "missing",
    .update "cache" [(.ofString "size", .number 3)], .toggle "cache", .toggle "cache"]

/-- The cache is off after three toggles, with the last size and the only mode; the server cannot be
toggled.  A toggle and an update of the cache could still be made in either order. -/
theorem run_mixedEdits :
    catalogue.DistinctNames ∧
      ∃ cache server, (catalogue.run mixedEdits).fetch = Module.sort [cache, server] ∧
        cache.enabled = false ∧ cache.settings.get? "size" = some (.number 3) ∧
        cache.settings.get? "mode" = some (.text "lru") ∧ server.enabled = true ∧
        (catalogue.run mixedEdits).run [.toggle "cache", .update "cache" []] =
          (catalogue.run mixedEdits).run [.update "cache" [], .toggle "cache"] := by
  have hnames : catalogue.DistinctNames := by decide
  obtain ⟨-, ⟨ms, hfetch, hsettled⟩, hcomm⟩ := run_settled catalogue hnames mixedEdits
  cases hsettled with
  | cons hcache hrest =>
  cases hrest with
  | @cons _ server _ _ hserver hrest =>
  cases hrest
  refine ⟨hnames, _, server, hfetch, ?_, ?_, ?_, ?_, (hcomm _ _ (.flagAndSettings "cache" [])).1⟩
  · have hodd : Odd (mixedEdits.countP (Edit.flips "cache")) := by decide +kernel
    simpa using hcache.enabled.mpr ⟨rfl, hodd⟩
  · rw [hcache.settings]
    decide +kernel
  · rw [hcache.settings]
    decide +kernel
  · have hsame := mt hserver.enabled.mp fun h => Bool.noConfusion h.1
    simpa using hsame

end Store

end Honeycomb
