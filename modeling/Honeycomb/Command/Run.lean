import Honeycomb.Command.Options
import Honeycomb.Command.World
import Honeycomb.Controller.Basic
import Honeycomb.Svg
import Honeycomb.Report
import Honeycomb.Decimal.Literal

/-!
# Running the command

A run has two parts.  `prepare` checks the options, loads the modules and renders them; nothing is
written before it is done.  `deliver` hands the text to the one place it is meant for.

`Command.run` is the whole command: what its outcome shows is all that can be seen of it.
-/

set_option autoImplicit false

namespace Honeycomb.Command

/-- Why a run fails. -/
inductive RunError
  | notPixels (option value : String)
  | noInput
  | source (error : SourceError)
  | service (failure : Failure)
  | page (error : Html.PageError)
  | tooSmall (surface : Viewport Float)
  | layout (error : LayoutError Float)
  | cannotWrite (error : World.WriteError)
  /-- The program that opens files failed. -/
  | cannotOpen (path : String)
deriving DecidableEq

def RunError.message : RunError → Text
  | .notPixels option value =>
    "--" ++ option ++ " must be a non-negative number (got \"" ++ value ++ "\")"
  | .noInput => "no module file given (pass a JSON file or --api <url>)"
  | .source error => error.message
  | .service failure => failure.message
  | .page error => error.message
  | .tooSmall surface =>
    "viewport " ++ surface.text ++ " is too small (both sides must exceed " ++
      numberText Controller.leastSide ++ "px)"
  | .layout error => error.message
  | .cannotWrite error => error.message
  | .cannotOpen path => "Command failed: open " ++ (Json.text path).render

/-- What is left behind on the way: lines for the error stream, and requests. -/
structure Trail where
  lines : List Text
  requests : List Request
deriving DecidableEq

/-- A part of a run that may fail, with its trail. -/
structure Part (α : Type) where
  trail : Trail
  result : Except RunError α

namespace Part

variable {α β : Type}

def quiet (result : Except RunError α) : Part α := ⟨⟨[], []⟩, result⟩

def say (lines : List Text) (value : α) : Part α := ⟨⟨lines, []⟩, .ok value⟩

/-- One part after another, unless the first one fails. -/
def andThen (p : Part α) (f : α → Part β) : Part β :=
  match p.result with
  | .error e => ⟨p.trail, .error e⟩
  | .ok a =>
    let q := f a
    ⟨⟨p.trail.lines ++ q.trail.lines, p.trail.requests ++ q.trail.requests⟩, q.result⟩

end Part

def noteIf (wanted : Bool) (line : Text) : List Text := if wanted then [line] else []

def pixels (option value : String) : Except RunError Float :=
  match Literal.read? value with
  | some n => if n.isFinite && !(n < 0) then .ok n else .error (.notPixels option value)
  | none => .error (.notPixels option value)

/-- What a layout is made for. -/
structure Frame where
  surface : Viewport Float
  padding : Float
deriving DecidableEq

def frame (o : Options) : Except RunError Frame :=
  match pixels "width" o.width with
  | .error e => .error e
  | .ok width =>
    match pixels "height" o.height with
    | .error e => .error e
    | .ok height =>
      match pixels "padding" o.padding with
      | .error e => .error e
      | .ok padding => .ok ⟨⟨width, height⟩, padding⟩

def fetch (o : Options) (w : World) (url : String) : Part (List Module) :=
  let request := (Admin.ofUrl url (o.apiKey.map Text.ofString)).fetchRequest
  { trail := ⟨noteIf o.verbose ("Fetching modules from " ++ url), [request]⟩
    result := (Reply.next w.replies).1.modules.mapError .service }

def readFile (o : Options) (w : World) (input : String) : Part (List Module) :=
  let path := w.resolve input
  { trail := ⟨noteIf o.verbose ("Reading modules from " ++ path), []⟩
    result := (Source.load w.complaint (w.content input) path).mapError .source }

/-- Loads the modules: from the service if one is given, else from the file. -/
def load (o : Options) (w : World) : Part (List Module) :=
  let url := o.api.getD ""
  let input := o.input.getD ""
  if url ≠ "" then fetch o w url
  else if input = "" then .quiet (.error .noInput)
  else readFile o w input

def announce (o : Options) (modules : List Module) : Part Unit :=
  .say (noteIf o.verbose ("Loaded " ++ Digits.text modules.length ++ " modules") ++
    noteIf modules.isEmpty "Warning: no modules in configuration") ()

def renderPage (o : Options) (w : World) (modules : List Module) : Part Text :=
  .quiet ((Html.render w.parts modules (o.api.getD "")).mapError .page)

def renderLayout (o : Options) (f : Frame) (modules : List Module) : Part Text :=
  if Controller.isReady f.surface then
    match Layout.ofModules modules f.surface f.padding with
    | .error e => .quiet (.error (.layout e))
    | .ok layout =>
      .say
        (noteIf o.verbose
          ("Hex size: " ++ numberText layout.hexSize ++ "px for " ++ f.surface.text))
        (if o.json then (Report.ofLayout layout).renderIndented else Svg.render layout)
  else .quiet (.error (.tooSmall f.surface))

def render (o : Options) (w : World) (f : Frame) (modules : List Module) : Part Text :=
  if o.html then renderPage o w modules else renderLayout o f modules

/-- Everything up to the finished text. -/
def prepare (o : Options) (w : World) : Part Text :=
  (Part.quiet (frame o)).andThen fun f =>
    (load o w).andThen fun modules =>
      (announce o modules).andThen fun _ => render o w f modules

/-- What can be seen of the command. -/
structure Outcome where
  exit : Nat
  stdout : String
  stderr : String
  /-- The files written, by the paths they were written to, with their texts. -/
  written : List (String × String)
  /-- The temporary files made, by name, with their texts. -/
  temporary : List (String × String)
  /-- The text of the file that was opened. -/
  opened : Option String
  requests : List Request
deriving DecidableEq

def Outcome.nothing : Outcome :=
  { exit := 0, stdout := "", stderr := "", written := [], temporary := [], opened := none,
    requests := [] }

def linesText (lines : List Text) : String := (Text.join (lines.map (· ++ "\n"))).toString

def extension (o : Options) : String :=
  if o.html then ".html" else if o.json then ".json" else ".svg"

def temporaryName (o : Options) (w : World) : String := "hexdeck-" ++ w.stamp ++ extension o

def errorLine (e : RunError) : Text := "Error: " ++ e.message

/-- The outcome of a run that failed and delivered nothing. -/
def failed (trail : Trail) (e : RunError) : Outcome :=
  { Outcome.nothing with
    exit := 1, stderr := linesText (trail.lines ++ [errorLine e]), requests := trail.requests }

/-- Hands the finished text to the place it is meant for: a temporary file that is opened, a file,
or the standard output. -/
def deliver (o : Options) (w : World) (trail : Trail) (text : String) : Outcome :=
  let total := noteIf o.verbose ("Total time: " ++ w.elapsed ++ "ms")
  let output := o.output.getD ""
  if o.openResult then
    let name := temporaryName o w
    let path := w.temporary ++ "/" ++ name
    let opening := noteIf o.verbose ("Opening " ++ path)
    match w.temporaryObstacle with
    | some obstacle => failed trail (.cannotWrite ⟨obstacle, path⟩)
    | none =>
      if w.opens then
        { Outcome.nothing with
          stderr := linesText (trail.lines ++ opening ++ total)
          temporary := [(name, text)], opened := some text, requests := trail.requests }
      else
        { failed { trail with lines := trail.lines ++ opening } (.cannotOpen path) with
          temporary := [(name, text)] }
  else if output ≠ "" then
    match w.writable output with
    | .error e => failed trail (.cannotWrite e)
    | .ok () =>
      { Outcome.nothing with
        stderr :=
          linesText (trail.lines ++ noteIf o.verbose ("Output written to " ++ output) ++ total)
        written := [(output, text)], requests := trail.requests }
  else
    { Outcome.nothing with
      stdout := text ++ "\n", stderr := linesText (trail.lines ++ total),
      requests := trail.requests }

def runWith (o : Options) (w : World) : Outcome :=
  let p := prepare o w
  match p.result with
  | .error e => failed p.trail e
  | .ok text => deliver o w p.trail text.toString

/-- The command with its arguments.  How they are read is a parameter; `Command.parse` is what the
program takes for it. -/
def run (read : List String → Option String → Job) (arguments : List String) (w : World) :
    Outcome :=
  match read arguments w.apiKey with
  | .help => { Outcome.nothing with stdout := helpText }
  | .refused e => { Outcome.nothing with exit := 1, stderr := e.message ++ "\n" }
  | .run o => runWith o w

end Honeycomb.Command
