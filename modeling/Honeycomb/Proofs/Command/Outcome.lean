import Honeycomb.Command.Run
import Honeycomb.Proofs.Text.Letters

/-!
# A run that fails writes nothing

A run fails before it writes anything for one of a few reasons: an option gives no number of pixels,
the modules cannot be loaded, the surface is too small, the layout cannot be made, or a part of the
page is missing.  `Hindered` lists them, whatever their order; `Fails` says which one is reported.

* `frame_eq_ok_iff`, `load_result_eq_ok_iff`, `render_result_eq_ok_iff`, and the same for errors —
  what the parts of a run give.
* `prepare_result_eq_ok_iff`, `prepare_result_eq_error_iff` — the parts together: a run `Renders` a
  text or `Fails`.
* `hindered_iff` — a run fails exactly if something hinders it.
* `deliver_of_accessible` — a finished text goes to one place.
* `run_reports_or_delivers` — **a run that fails says why and leaves nothing else; a run that
  succeeds leaves its text in one place.**
-/

set_option autoImplicit false

namespace Honeycomb.Command

variable {o : Options} {w : World}

/-! ## Conditions -/

/-- The text of an option gives a number of pixels. -/
def GivesPixels (value : String) (n : Float) : Prop :=
  Literal.read? value = some n ∧ n.isFinite = true ∧ ¬ n < 0

/-- The options that give numbers of pixels, in the order in which they are checked. -/
def Options.pixelValues (o : Options) : List (String × String) :=
  [("width", o.width), ("height", o.height), ("padding", o.padding)]

/-- The first option that gives no number of pixels, with its value. -/
def FirstWrong (o : Options) (option value : String) : Prop :=
  ∃ past later, o.pixelValues = past ++ (option, value) :: later ∧
    (∀ p ∈ past, ∃ n, GivesPixels p.2 n) ∧ ¬ ∃ n, GivesPixels value n

/-- The options give a surface and a padding. -/
structure Framed (o : Options) (f : Frame) : Prop where
  width : GivesPixels o.width f.surface.width
  height : GivesPixels o.height f.surface.height
  padding : GivesPixels o.padding f.padding

/-- The modules that are loaded: from the service if its address is given, else from the file. -/
inductive Loads (o : Options) (w : World) (ms : List Module) : Prop
  | service {url : String} (address : o.api = some url) (given : url ≠ "")
      (answer : (Reply.next w.replies).1.modules = .ok ms)
  | file {input : String} (offline : o.api.getD "" = "") (named : o.input = some input)
      (given : input ≠ "")
      (found : Source.load w.complaint (w.content input) (w.resolve input) = .ok ms)

/-- What keeps the modules from being loaded. -/
inductive Unloaded (o : Options) (w : World) : RunError → Prop
  | service {url : String} {failure : Failure} (address : o.api = some url) (given : url ≠ "")
      (answer : (Reply.next w.replies).1.modules = .error failure) :
      Unloaded o w (.service failure)
  | noInput (offline : o.api.getD "" = "") (unnamed : o.input.getD "" = "") :
      Unloaded o w .noInput
  | file {input : String} {error : SourceError} (offline : o.api.getD "" = "")
      (named : o.input = some input) (given : input ≠ "")
      (found : Source.load w.complaint (w.content input) (w.resolve input) = .error error) :
      Unloaded o w (.source error)

/-- The text that modules are rendered to. -/
inductive Rendered (o : Options) (w : World) (f : Frame) (ms : List Module) : Text → Prop
  | page {page code : Text} (html : o.html = true) (hasPage : w.parts.page = some page)
      (hasCode : w.parts.code = some code) :
      Rendered o w f ms (Html.fill page code ms (o.api.getD ""))
  | data {layout : Layout Float} (html : o.html = false) (json : o.json = true)
      (ready : Controller.isReady f.surface = true)
      (made : Layout.ofModules ms f.surface f.padding = .ok layout) :
      Rendered o w f ms (Report.ofLayout layout).renderIndented
  | picture {layout : Layout Float} (html : o.html = false) (json : o.json = false)
      (ready : Controller.isReady f.surface = true)
      (made : Layout.ofModules ms f.surface f.padding = .ok layout) :
      Rendered o w f ms (Svg.render layout)

/-- What keeps modules from being rendered. -/
inductive Unrendered (o : Options) (w : World) (f : Frame) (ms : List Module) : RunError → Prop
  | noCode (html : o.html = true) (code : w.parts.code = none) :
      Unrendered o w f ms (.page (.noCode w.parts.directory))
  | noPage (html : o.html = true) (code : w.parts.code ≠ none) (page : w.parts.page = none) :
      Unrendered o w f ms (.page (.noPage w.parts.directory))
  | tooSmall (html : o.html = false) (small : Controller.isReady f.surface = false) :
      Unrendered o w f ms (.tooSmall f.surface)
  | layout {error : LayoutError Float} (html : o.html = false)
      (ready : Controller.isReady f.surface = true)
      (thrown : Layout.ofModules ms f.surface f.padding = .error error) :
      Unrendered o w f ms (.layout error)

/-- The text that a run makes. -/
def Renders (o : Options) (w : World) (text : Text) : Prop :=
  ∃ f ms, Framed o f ∧ Loads o w ms ∧ Rendered o w f ms text

/-- What a run reports when it makes no text: the first thing that goes wrong. -/
inductive Fails (o : Options) (w : World) : RunError → Prop
  | pixels {option value : String} (first : FirstWrong o option value) :
      Fails o w (.notPixels option value)
  | load {f : Frame} {e : RunError} (framed : Framed o f) (unloaded : Unloaded o w e) : Fails o w e
  | render {f : Frame} {ms : List Module} {e : RunError} (framed : Framed o f)
      (loads : Loads o w ms) (unrendered : Unrendered o w f ms e) : Fails o w e

/-- What can go wrong before a text is made, whatever else goes wrong. -/
inductive Hindered (o : Options) (w : World) : Prop
  | pixels {option value : String} (listed : (option, value) ∈ o.pixelValues)
      (wrong : ¬ ∃ n, GivesPixels value n)
  | load {e : RunError} (unloaded : Unloaded o w e)
  | tooSmall {f : Frame} (html : o.html = false) (framed : Framed o f)
      (small : Controller.isReady f.surface = false)
  | layout {f : Frame} {ms : List Module} {error : LayoutError Float} (html : o.html = false)
      (framed : Framed o f) (loads : Loads o w ms)
      (thrown : Layout.ofModules ms f.surface f.padding = .error error)
  | page (html : o.html = true) (missing : w.parts.code = none ∨ w.parts.page = none)

/-- The place that a text is meant for takes it. -/
structure Accessible (o : Options) (w : World) : Prop where
  temporary : o.openResult = true → w.temporaryObstacle = none
  opens : o.openResult = true → w.opens = true
  writable : ∀ path, o.openResult = false → o.output = some path → path ≠ "" →
    w.writable path = .ok ()

/-- A text went to the place it is meant for, and nowhere else: to a temporary file that is opened,
else to a file, else to the standard output. -/
inductive Delivered (o : Options) (w : World) (text : String) (out : Outcome) : Prop
  | opened (wanted : o.openResult = true) (temporary : out.temporary = [(temporaryName o w, text)])
      (opened : out.opened = some text) (written : out.written = []) (stdout : out.stdout = "")
  | written {path : String} (unopened : o.openResult = false) (output : o.output = some path)
      (given : path ≠ "") (written : out.written = [(path, text)]) (temporary : out.temporary = [])
      (opened : out.opened = none) (stdout : out.stdout = "")
  | printed (unopened : o.openResult = false) (output : o.output.getD "" = "")
      (stdout : out.stdout = text ++ "\n") (written : out.written = [])
      (temporary : out.temporary = []) (opened : out.opened = none)

/-- Nothing is left of a run but lines on the error stream, the last of which says why it failed. -/
structure Reported (message : Text) (out : Outcome) : Prop where
  exit : out.exit = 1
  stdout : out.stdout = ""
  written : out.written = []
  temporary : out.temporary = []
  opened : out.opened = none
  stderr : ∃ notes, out.stderr = linesText notes ++ "Error: " ++ message.toString ++ "\n"

/-! ## Lines -/

theorem linesText_nil : linesText [] = "" := rfl

theorem linesText_cons (l : Text) (ls : List Text) :
    linesText (l :: ls) = l.toString ++ "\n" ++ linesText ls := by
  have hjoin : Text.join ((l :: ls).map (· ++ "\n")) =
      l ++ (Text.ofString "\n" ++ Text.join (ls.map (· ++ "\n"))) :=
    Text.ext (List.append_assoc ..)
  rw [linesText, hjoin, Text.toString_append_ofString (by decide), ← String.append_assoc]
  rfl

theorem linesText_concat (ls : List Text) (l : Text) :
    linesText (ls ++ [l]) = linesText ls ++ l.toString ++ "\n" := by
  induction ls with
  | nil =>
    rw [List.nil_append, linesText_cons, linesText_nil, String.append_empty, String.empty_append]
  | cons a ls ih =>
    rw [List.cons_append, linesText_cons, ih, linesText_cons]
    simp only [String.append_assoc]

theorem toString_errorLine (e : RunError) :
    (errorLine e).toString = "Error: " ++ e.message.toString :=
  Text.toString_ofString_append ..

/-- A failed part leaves its lines and the reason. -/
theorem reported_failed (trail : Trail) (e : RunError) : Reported e.message (failed trail e) where
  exit := rfl
  stdout := rfl
  written := rfl
  temporary := rfl
  opened := rfl
  stderr := ⟨trail.lines, by
    rw [failed, linesText_concat, toString_errorLine, ← String.append_assoc]⟩

theorem toString_message_notPixels (option value : String) :
    (RunError.notPixels option value).message.toString =
      "--" ++ option ++ " must be a non-negative number (got \"" ++ value ++ "\")" := by
  simp only [RunError.message, ← Text.ofString_append, Text.toString_ofString]

/-! ## Parts -/

namespace Part

variable {α β : Type} {p : Part α} {f : α → Part β}

@[simp] theorem quiet_result (r : Except RunError α) : (quiet r).result = r := rfl

theorem andThen_result_eq_ok_iff {b : β} :
    (p.andThen f).result = .ok b ↔ ∃ a, p.result = .ok a ∧ (f a).result = .ok b := by
  unfold andThen
  cases p.result with
  | error e => simp
  | ok a => simp

theorem andThen_result_eq_error_iff {e : RunError} :
    (p.andThen f).result = .error e ↔
      p.result = .error e ∨ ∃ a, p.result = .ok a ∧ (f a).result = .error e := by
  unfold andThen
  cases p.result with
  | error e => simp
  | ok a => simp

end Part

/-! ## Options -/

theorem pixels_eq_ok_iff {option value : String} {n : Float} :
    pixels option value = .ok n ↔ GivesPixels value n := by
  unfold pixels GivesPixels
  cases Literal.read? value with
  | none => exact iff_of_false nofun fun h => nomatch h.1
  | some m =>
    simp only [Option.some.injEq]
    constructor
    · intro h
      split at h
      · rename_i hvalid
        cases h
        rw [Bool.and_eq_true, Bool.not_eq_true', decide_eq_false_iff_not] at hvalid
        exact ⟨rfl, hvalid⟩
      · cases h
    · rintro ⟨rfl, hfinite, hsign⟩
      rw [hfinite, decide_eq_false hsign]
      rfl

theorem pixels_eq_error_iff {option value : String} {e : RunError} :
    pixels option value = .error e ↔
      e = .notPixels option value ∧ ¬ ∃ n, GivesPixels value n := by
  have herror : ∀ e', pixels option value = .error e' → e' = .notPixels option value := by
    intro e' h
    unfold pixels at h
    split at h
    · split at h
      · cases h
      · exact (Except.error.inj h).symm
    · exact (Except.error.inj h).symm
  cases hpixels : pixels option value with
  | ok n => exact iff_of_false nofun fun h => h.2 ⟨n, pixels_eq_ok_iff.mp hpixels⟩
  | error e' =>
    have hwrong : ¬ ∃ n, GivesPixels value n := by
      rintro ⟨n, hn⟩
      rw [pixels_eq_ok_iff.mpr hn] at hpixels
      cases hpixels
    rw [Except.error.injEq, herror e' hpixels, eq_comm, and_iff_left hwrong]

theorem frame_eq_ok_iff {f : Frame} : frame o = .ok f ↔ Framed o f := by
  constructor
  · intro h
    unfold frame at h
    split at h
    · cases h
    · rename_i width hwidth
      split at h
      · cases h
      · rename_i height hheight
        split at h
        · cases h
        · rename_i padding hpadding
          cases h
          exact ⟨pixels_eq_ok_iff.mp hwidth, pixels_eq_ok_iff.mp hheight,
            pixels_eq_ok_iff.mp hpadding⟩
  · intro h
    rw [frame, pixels_eq_ok_iff.mpr h.width, pixels_eq_ok_iff.mpr h.height,
      pixels_eq_ok_iff.mpr h.padding]

theorem frame_of_firstWrong {option value : String} (h : FirstWrong o option value) :
    frame o = .error (.notPixels option value) := by
  obtain ⟨past, later, hlist, hpast, hwrong⟩ := h
  have hfails : pixels option value = .error (.notPixels option value) :=
    pixels_eq_error_iff.mpr ⟨rfl, hwrong⟩
  match past with
  | [] =>
    cases hlist
    rw [frame, hfails]
  | [a] =>
    obtain ⟨n, hn⟩ := hpast a (by simp)
    cases hlist
    rw [frame, pixels_eq_ok_iff.mpr hn, hfails]
  | [a, b] =>
    obtain ⟨n, hn⟩ := hpast a (by simp)
    obtain ⟨m, hm⟩ := hpast b (by simp)
    cases hlist
    rw [frame, pixels_eq_ok_iff.mpr hn, pixels_eq_ok_iff.mpr hm, hfails]
  | a :: b :: c :: past => simp [Options.pixelValues] at hlist

/-- **The first option that is wrong is the one that is reported.** -/
theorem frame_eq_error_iff {e : RunError} :
    frame o = .error e ↔
      ∃ option value, FirstWrong o option value ∧ e = .notPixels option value := by
  constructor
  · intro h
    unfold frame at h
    split at h
    · rename_i hwidth
      cases h
      obtain ⟨rfl, hwrong⟩ := pixels_eq_error_iff.mp hwidth
      exact ⟨_, _, ⟨[], _, rfl, by simp, hwrong⟩, rfl⟩
    · rename_i width hwidth
      split at h
      · rename_i hheight
        cases h
        obtain ⟨rfl, hwrong⟩ := pixels_eq_error_iff.mp hheight
        refine ⟨_, _, ⟨[_], _, rfl, ?_, hwrong⟩, rfl⟩
        simpa using ⟨width, pixels_eq_ok_iff.mp hwidth⟩
      · rename_i height hheight
        split at h
        · rename_i hpadding
          cases h
          obtain ⟨rfl, hwrong⟩ := pixels_eq_error_iff.mp hpadding
          refine ⟨_, _, ⟨[_, _], _, rfl, ?_, hwrong⟩, rfl⟩
          simpa using ⟨⟨width, pixels_eq_ok_iff.mp hwidth⟩, ⟨height, pixels_eq_ok_iff.mp hheight⟩⟩
        · cases h
  · rintro ⟨option, value, h, rfl⟩
    exact frame_of_firstWrong h

/-! ## Loading -/

theorem mapError_eq_ok_iff {ε ε' α : Type} {r : Except ε α} {f : ε → ε'} {a : α} :
    r.mapError f = .ok a ↔ r = .ok a := by
  cases r <;> simp [Except.mapError]

theorem mapError_eq_error_iff {ε ε' α : Type} {r : Except ε α} {f : ε → ε'} {e : ε'} :
    r.mapError f = .error e ↔ ∃ cause, r = .error cause ∧ f cause = e := by
  cases r <;> simp [Except.mapError]

theorem exists_of_getD_ne {a : Option String} (h : a.getD "" ≠ "") : ∃ s, a = some s ∧ s ≠ "" := by
  cases a with
  | none => exact absurd rfl h
  | some s => exact ⟨s, rfl, h⟩

theorem load_result_service {url : String} (address : o.api = some url) (given : url ≠ "") :
    (load o w).result = (Reply.next w.replies).1.modules.mapError .service := by
  rw [load, address, Option.getD_some, if_pos given]
  rfl

theorem load_result_noInput (offline : o.api.getD "" = "") (unnamed : o.input.getD "" = "") :
    (load o w).result = .error .noInput := by
  rw [load, offline, unnamed]
  rfl

theorem load_result_file {input : String} (offline : o.api.getD "" = "")
    (named : o.input = some input) (given : input ≠ "") :
    (load o w).result =
      (Source.load w.complaint (w.content input) (w.resolve input)).mapError .source := by
  rw [load, offline, named, Option.getD_some, if_neg (not_not_intro rfl), if_neg given]
  rfl

/-- Where modules can come from. -/
theorem origin_cases (o : Options) :
    (∃ url, o.api = some url ∧ url ≠ "") ∨
      o.api.getD "" = "" ∧ (o.input.getD "" = "" ∨ ∃ input, o.input = some input ∧ input ≠ "") := by
  by_cases hurl : o.api.getD "" = ""
  · by_cases hinput : o.input.getD "" = ""
    · exact .inr ⟨hurl, .inl hinput⟩
    · exact .inr ⟨hurl, .inr (exists_of_getD_ne hinput)⟩
  · exact .inl (exists_of_getD_ne hurl)

theorem load_result_eq_ok_iff {ms : List Module} : (load o w).result = .ok ms ↔ Loads o w ms := by
  constructor
  · intro h
    rcases origin_cases o with ⟨url, address, given⟩ | ⟨offline, unnamed | ⟨input, named, given⟩⟩
    · rw [load_result_service address given, mapError_eq_ok_iff] at h
      exact .service address given h
    · rw [load_result_noInput offline unnamed] at h
      cases h
    · rw [load_result_file offline named given, mapError_eq_ok_iff] at h
      exact .file offline named given h
  · intro h
    cases h with
    | service address given answer => rw [load_result_service address given, answer]; rfl
    | file offline named given found => rw [load_result_file offline named given, found]; rfl

theorem load_result_eq_error_iff {e : RunError} :
    (load o w).result = .error e ↔ Unloaded o w e := by
  constructor
  · intro h
    rcases origin_cases o with ⟨url, address, given⟩ | ⟨offline, unnamed | ⟨input, named, given⟩⟩
    · rw [load_result_service address given, mapError_eq_error_iff] at h
      obtain ⟨failure, answer, rfl⟩ := h
      exact .service address given answer
    · rw [load_result_noInput offline unnamed] at h
      cases h
      exact .noInput offline unnamed
    · rw [load_result_file offline named given, mapError_eq_error_iff] at h
      obtain ⟨error, found, rfl⟩ := h
      exact .file offline named given found
  · intro h
    cases h with
    | service address given answer => rw [load_result_service address given, answer]; rfl
    | noInput offline unnamed => exact load_result_noInput offline unnamed
    | file offline named given found => rw [load_result_file offline named given, found]; rfl

/-! ## Rendering -/

variable {f : Frame} {ms : List Module}

theorem render_result_eq_ok_iff {text : Text} :
    (render o w f ms).result = .ok text ↔ Rendered o w f ms text := by
  constructor
  · intro h
    unfold render at h
    split at h
    · rename_i html
      rw [renderPage, Part.quiet, mapError_eq_ok_iff, Html.render] at h
      split at h
      · cases h
      · cases h
      · rename_i code page hcode hpage
        cases h
        exact .page html hpage hcode
    · rename_i html
      rw [Bool.not_eq_true] at html
      unfold renderLayout at h
      split at h
      · rename_i ready
        split at h
        · cases h
        · rename_i layout made
          cases h
          by_cases json : o.json = true
          · rw [if_pos json]
            exact .data html json ready made
          · rw [if_neg json]
            exact .picture html (Bool.not_eq_true _ ▸ json) ready made
      · cases h
  · intro h
    cases h with
    | page html hasPage hasCode =>
      rw [render, if_pos html, renderPage, Html.render, hasCode, hasPage]
      rfl
    | data html json ready made =>
      rw [render, html, if_neg Bool.false_ne_true, renderLayout, if_pos ready, made, json]
      rfl
    | picture html json ready made =>
      rw [render, html, if_neg Bool.false_ne_true, renderLayout, if_pos ready, made, json]
      rfl

theorem render_result_eq_error_iff {e : RunError} :
    (render o w f ms).result = .error e ↔ Unrendered o w f ms e := by
  constructor
  · intro h
    unfold render at h
    split at h
    · rename_i html
      rw [renderPage, Part.quiet, mapError_eq_error_iff, Html.render] at h
      obtain ⟨error, h, rfl⟩ := h
      split at h
      · rename_i hcode
        cases h
        exact .noCode html hcode
      · rename_i code hcode hpage
        cases h
        exact .noPage html (by rw [hcode]; simp) hpage
      · cases h
    · rename_i html
      rw [Bool.not_eq_true] at html
      unfold renderLayout at h
      split at h
      · rename_i ready
        split at h
        · rename_i error thrown
          cases h
          exact .layout html ready thrown
        · cases h
      · rename_i small
        cases h
        exact .tooSmall html (Bool.not_eq_true _ ▸ small)
  · intro h
    cases h with
    | noCode html code =>
      rw [render, if_pos html, renderPage, Html.render, code]
      rfl
    | noPage html code page =>
      obtain ⟨text, htext⟩ := Option.ne_none_iff_exists'.mp code
      rw [render, if_pos html, renderPage, Html.render, htext, page]
      rfl
    | tooSmall html small =>
      rw [render, html, if_neg Bool.false_ne_true, renderLayout, small]
      rfl
    | layout html ready thrown =>
      rw [render, html, if_neg Bool.false_ne_true, renderLayout, if_pos ready, thrown]
      rfl

/-! ## What a run makes -/

theorem prepare_result_eq_ok_iff {text : Text} :
    (prepare o w).result = .ok text ↔ Renders o w text := by
  simp only [prepare, Part.andThen_result_eq_ok_iff, Part.quiet_result]
  constructor
  · rintro ⟨f, hframe, ms, hload, -, -, hrender⟩
    exact ⟨f, ms, frame_eq_ok_iff.mp hframe, load_result_eq_ok_iff.mp hload,
      render_result_eq_ok_iff.mp hrender⟩
  · rintro ⟨f, ms, framed, loads, rendered⟩
    exact ⟨f, frame_eq_ok_iff.mpr framed, ms, load_result_eq_ok_iff.mpr loads, (), rfl,
      render_result_eq_ok_iff.mpr rendered⟩

/-- **What is reported is the first thing that goes wrong.** -/
theorem prepare_result_eq_error_iff {e : RunError} :
    (prepare o w).result = .error e ↔ Fails o w e := by
  simp only [prepare, Part.andThen_result_eq_error_iff, Part.quiet_result]
  constructor
  · rintro (hframe | ⟨f, hframe, hload | ⟨ms, hload, hsaid | ⟨-, -, hrender⟩⟩⟩)
    · obtain ⟨option, value, first, rfl⟩ := frame_eq_error_iff.mp hframe
      exact .pixels first
    · exact .load (frame_eq_ok_iff.mp hframe) (load_result_eq_error_iff.mp hload)
    · cases hsaid
    · exact .render (frame_eq_ok_iff.mp hframe) (load_result_eq_ok_iff.mp hload)
        (render_result_eq_error_iff.mp hrender)
  · intro h
    cases h with
    | pixels first => exact .inl (frame_of_firstWrong first)
    | @load f _ framed unloaded =>
      refine .inr ⟨f, frame_eq_ok_iff.mpr framed, .inl ?_⟩
      exact load_result_eq_error_iff.mpr unloaded
    | @render f ms _ framed loads unrendered =>
      refine .inr ⟨f, frame_eq_ok_iff.mpr framed, .inr ⟨ms, load_result_eq_ok_iff.mpr loads, ?_⟩⟩
      exact .inr ⟨(), rfl, render_result_eq_error_iff.mpr unrendered⟩

theorem fails_or_renders (o : Options) (w : World) :
    (∃ e, Fails o w e) ∨ ∃ text, Renders o w text := by
  cases h : (prepare o w).result with
  | error e => exact .inl ⟨e, prepare_result_eq_error_iff.mp h⟩
  | ok text => exact .inr ⟨text, prepare_result_eq_ok_iff.mp h⟩

theorem Framed.unique {f f' : Frame} (h : Framed o f) (h' : Framed o f') : f = f' :=
  Except.ok.inj ((frame_eq_ok_iff.mpr h).symm.trans (frame_eq_ok_iff.mpr h'))

theorem Framed.gives (h : Framed o f) {option value : String}
    (listed : (option, value) ∈ o.pixelValues) : ∃ n, GivesPixels value n := by
  simp only [Options.pixelValues, List.mem_cons, List.not_mem_nil, or_false, Prod.mk.injEq]
    at listed
  rcases listed with ⟨-, rfl⟩ | ⟨-, rfl⟩ | ⟨-, rfl⟩
  · exact ⟨_, h.width⟩
  · exact ⟨_, h.height⟩
  · exact ⟨_, h.padding⟩

theorem Loads.unique {ms ms' : List Module} (h : Loads o w ms) (h' : Loads o w ms') : ms = ms' :=
  Except.ok.inj ((load_result_eq_ok_iff.mpr h).symm.trans (load_result_eq_ok_iff.mpr h'))

theorem Loads.not_unloaded {e : RunError} (h : Loads o w ms) : ¬ Unloaded o w e := by
  intro h'
  have hload := load_result_eq_ok_iff.mpr h
  rw [load_result_eq_error_iff.mpr h'] at hload
  cases hload

/-- Where a text is made, nothing goes wrong. -/
theorem Renders.not_hindered {text : Text} (h : Renders o w text) : ¬ Hindered o w := by
  obtain ⟨f, ms, framed, loads, rendered⟩ := h
  intro hindered
  cases hindered with
  | pixels listed wrong => exact wrong (framed.gives listed)
  | load unloaded => exact loads.not_unloaded unloaded
  | tooSmall html framed' small =>
    obtain rfl := framed'.unique framed
    cases rendered with
    | page html' => cases html.symm.trans html'
    | data _ _ ready => cases small.symm.trans ready
    | picture _ _ ready => cases small.symm.trans ready
  | layout html framed' loads' thrown =>
    obtain rfl := framed'.unique framed
    obtain rfl := loads'.unique loads
    cases rendered with
    | page html' => cases html.symm.trans html'
    | data _ _ _ made => cases thrown.symm.trans made
    | picture _ _ _ made => cases thrown.symm.trans made
  | page html missing =>
    cases rendered with
    | page _ hasPage hasCode =>
      rcases missing with hcode | hpage
      · cases hcode.symm.trans hasCode
      · cases hpage.symm.trans hasPage
    | data html' => cases html.symm.trans html'
    | picture html' => cases html.symm.trans html'

theorem Fails.hindered {e : RunError} (h : Fails o w e) : Hindered o w := by
  cases h with
  | pixels first =>
    obtain ⟨past, later, hlist, -, hwrong⟩ := first
    exact .pixels (hlist ▸ List.mem_append_right past List.mem_cons_self) hwrong
  | load _ unloaded => exact .load unloaded
  | render framed loads unrendered =>
    cases unrendered with
    | noCode html code => exact .page html (.inl code)
    | noPage html _ page => exact .page html (.inr page)
    | tooSmall html small => exact .tooSmall html framed small
    | layout html _ thrown => exact .layout html framed loads thrown

/-- **A run makes no text exactly if something goes wrong.** -/
theorem hindered_iff : Hindered o w ↔ ∃ e, Fails o w e := by
  constructor
  · intro h
    exact (fails_or_renders o w).resolve_right fun ⟨_, hrenders⟩ => hrenders.not_hindered h
  · rintro ⟨e, h⟩
    exact h.hindered

/-! ## What a run leaves -/

theorem runWith_of_fails {e : RunError} (h : Fails o w e) :
    runWith o w = failed (prepare o w).trail e := by
  rw [runWith, prepare_result_eq_error_iff.mpr h]

theorem runWith_of_renders {text : Text} (h : Renders o w text) :
    runWith o w = deliver o w (prepare o w).trail text.toString := by
  rw [runWith, prepare_result_eq_ok_iff.mpr h]

/-- A wrong option is noticed before anything is read or asked for. -/
theorem prepare_of_firstWrong {option value : String} (h : FirstWrong o option value) :
    prepare o w = .quiet (.error (.notPixels option value)) := by
  rw [prepare, frame_of_firstWrong h]
  rfl

theorem runWith_of_firstWrong {option value : String} (h : FirstWrong o option value) (w : World) :
    runWith o w =
      { Outcome.nothing with
        exit := 1
        stderr := "Error: --" ++ option ++ " must be a non-negative number (got \"" ++ value ++
          "\")\n" } := by
  have hline : linesText [errorLine (.notPixels option value)] =
      "Error: --" ++ option ++ " must be a non-negative number (got \"" ++ value ++ "\")\n" := by
    rw [linesText_cons, toString_errorLine, toString_message_notPixels, linesText_nil,
      String.append_empty]
    simp only [String.append_assoc]
    rfl
  rw [runWith, prepare_of_firstWrong h, ← hline]
  rfl

theorem exists_firstWrong
    (h : ∃ p ∈ o.pixelValues, ¬ ∃ n, GivesPixels p.2 n) :
    ∃ option value, FirstWrong o option value := by
  obtain ⟨p, hp, hwrong⟩ := h
  cases hframe : frame o with
  | ok f => exact absurd ((frame_eq_ok_iff.mp hframe).gives hp) hwrong
  | error e =>
    obtain ⟨option, value, first, -⟩ := frame_eq_error_iff.mp hframe
    exact ⟨option, value, first⟩

theorem accessible_of_opened (wanted : o.openResult = true) (free : w.temporaryObstacle = none)
    (opens : w.opens = true) : Accessible o w := by
  refine ⟨fun _ => free, fun _ => opens, fun _ unopened => ?_⟩
  rw [wanted] at unopened
  cases unopened

theorem accessible_of_unopened (unopened : ¬ o.openResult = true)
    (writable : ∀ path, o.output = some path → path ≠ "" → w.writable path = .ok ()) :
    Accessible o w :=
  ⟨fun wanted => absurd wanted unopened, fun wanted => absurd wanted unopened,
    fun path _ => writable path⟩

theorem deliver_of_accessible (h : Accessible o w) (trail : Trail) (text : String) :
    (deliver o w trail text).exit = 0 ∧ Delivered o w text (deliver o w trail text) := by
  unfold deliver
  dsimp only
  split
  · rename_i wanted
    rw [h.temporary wanted, if_pos (h.opens wanted)]
    exact ⟨rfl, .opened wanted rfl rfl rfl rfl⟩
  · rename_i wanted
    rw [Bool.not_eq_true] at wanted
    split
    · rename_i houtput
      obtain ⟨path, output, given⟩ := exists_of_getD_ne houtput
      rw [output, Option.getD_some, h.writable path wanted output given]
      exact ⟨rfl, .written wanted output given rfl rfl rfl rfl⟩
    · rename_i houtput
      exact ⟨rfl, .printed wanted (not_not.mp houtput) rfl rfl rfl rfl⟩

theorem deliver_of_not_accessible (h : ¬ Accessible o w) (trail : Trail) (text : String) :
    (deliver o w trail text).exit = 1 := by
  unfold deliver
  dsimp only
  split
  · rename_i wanted
    split
    · rfl
    · rename_i free
      split
      · rename_i opens
        exact absurd (accessible_of_opened wanted free opens) h
      · rfl
  · rename_i unopened
    split
    · rename_i houtput
      split
      · rfl
      · rename_i hwritable
        refine absurd (accessible_of_unopened unopened fun path output _ => ?_) h
        rw [output] at hwritable
        exact hwritable
    · rename_i houtput
      refine absurd (accessible_of_unopened unopened fun path output given => ?_) h
      rw [output] at houtput
      exact absurd given houtput

theorem exit_eq_zero_iff : (runWith o w).exit = 0 ↔ ¬ Hindered o w ∧ Accessible o w := by
  rcases fails_or_renders o w with ⟨e, hfails⟩ | ⟨text, hrenders⟩
  · refine iff_of_false ?_ fun h => h.1 hfails.hindered
    rw [runWith_of_fails hfails]
    exact Nat.one_ne_zero
  · rw [runWith_of_renders hrenders, and_iff_right hrenders.not_hindered]
    by_cases haccessible : Accessible o w
    · exact iff_of_true (deliver_of_accessible haccessible _ _).1 haccessible
    · refine iff_of_false ?_ haccessible
      rw [deliver_of_not_accessible haccessible]
      exact Nat.one_ne_zero

/-- **A run reports or delivers.**  If anything hinders a run, the first thing that goes wrong is
reported on the last line of the error stream, nothing is on the standard output, no file is
written, and the command fails.  A wrong option is reported whatever stands in the files and
whatever a service would answer, and before any request.  A run succeeds exactly if nothing hinders
it and the place its text is meant for takes it; then the text is there, and nowhere else.  However
arguments are read, the command is a run with the options that they are read as. -/
theorem run_reports_or_delivers (o : Options) (w : World) :
    (Hindered o w ↔ ∃ e, Fails o w e) ∧
      (∀ e, Fails o w e → Reported e.message (runWith o w)) ∧
      ((∃ p ∈ o.pixelValues, ¬ ∃ n, GivesPixels p.2 n) →
        ∃ option value, FirstWrong o option value ∧
          ∀ other : World, runWith o other =
            { Outcome.nothing with
              exit := 1
              stderr := "Error: --" ++ option ++
                " must be a non-negative number (got \"" ++ value ++ "\")\n" }) ∧
      ((runWith o w).exit = 0 ↔ ¬ Hindered o w ∧ Accessible o w) ∧
      ((runWith o w).exit = 0 →
        ∃ text, Renders o w text ∧ Delivered o w text.toString (runWith o w)) ∧
      ∀ (read : List String → Option String → Job) (arguments : List String),
        read arguments w.apiKey = .run o → run read arguments w = runWith o w := by
  refine ⟨hindered_iff, ?_, ?_, exit_eq_zero_iff, ?_, ?_⟩
  · intro e hfails
    rw [runWith_of_fails hfails]
    exact reported_failed _ e
  · intro hwrong
    obtain ⟨option, value, first⟩ := exists_firstWrong hwrong
    exact ⟨option, value, first, runWith_of_firstWrong first⟩
  · intro hexit
    obtain ⟨hfree, haccessible⟩ := exit_eq_zero_iff.mp hexit
    obtain ⟨text, hrenders⟩ :=
      (fails_or_renders o w).resolve_left fun hfails => hfree (hindered_iff.mpr hfails)
    rw [runWith_of_renders hrenders]
    exact ⟨text, hrenders, (deliver_of_accessible haccessible _ _).2⟩
  · intro read arguments hread
    rw [run, hread]

/-- A width that is no number is noticed, whatever the command would find. -/
example (w : World) :
    runWith { Options.default with input := some "modules.json", width := "wide" } w =
      { Outcome.nothing with
        exit := 1, stderr := "Error: --width must be a non-negative number (got \"wide\")\n" } := by
  rfl

end Honeycomb.Command
