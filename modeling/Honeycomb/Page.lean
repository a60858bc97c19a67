import Honeycomb.Element.Draw
import Honeycomb.Element.Click
import Honeycomb.Controller.Session

/-!
# Pages

A page is a container and a session that draws into it.  It is loaded with modules and perhaps the
address of a service; afterwards it hears of clicks, typing, and changes of its size and visibility.

A click that no element stopped and that lies neither in a node nor in the popup closes the popup.
-/

set_option autoImplicit false

namespace Honeycomb

structure Page where
  container : Element
  /-- What an input of the page holds of a text that is set as its value. -/
  held : Text → Text
  /-- What runs behind the page; nothing does if the page could not be set up. -/
  session : Option Session

namespace Page

/-- What a page is loaded with. -/
structure Source where
  hasContainer : Bool
  held : Text → Text
  surface : Viewport Float
  data : Option Json
  /-- The address of the service, empty for none. -/
  service : Text
  replies : List Reply

/-- Something that happens to a page. -/
inductive Input
  | gesture (gesture : Gesture)
  | clickContainer
  /-- A click on the page outside of any element. -/
  | clickOutside
  | setSurface (surface : Viewport Float)
  | setFault (message : Option Text)
  | resize
  | setVisible (visible : Bool)
  | runFrame
  | runFrames

/-- What can be seen of one step of a page. -/
structure Entry where
  /-- Whether the element meant was there, for inputs that mean one. -/
  found : Option Bool
  /-- Whether the click was stopped, if there was one on an element that was meant. -/
  stopped : Option Bool
  record : Record
  page : Page
  unchanged : Bool

def emptyContainer : Element := .html "div" []

/-- The number of the operation that stands for everything on a page. -/
def operation : Nat := 0

/-- A failure that nobody waits for is logged. -/
def logEnded (r : Record) : Record :=
  { r with
    log := r.log ++ r.ended.filterMap fun e => e.2.map fun f => ⟨.error, ["hexdeck:", f.report]⟩ }

/-- The container after what was drawn: the last view is what it holds. -/
def drawn (p : Page) (r : Record) : Element :=
  match r.views.getLast? with
  | none => p.container
  | some view => p.container.drawView p.held view

/-- Lets the calls under way be answered and draws what there is to draw. -/
def finish (p : Page) (s : Session) (r : Record) : Page × Record :=
  let (s, r) := s.settle r
  let r := logEnded r
  ({ p with container := p.drawn r, session := some s }, r)

def initialModules : Option Json → Except PayloadError (List Module)
  | none => .ok []
  | some raw => (Payload.modules raw).map Module.sort

/-- The service of a page: the one at its address, or a store of the modules that came with it. -/
def serviceOf (source : Source) (modules : List Module) : Service :=
  if source.service = "" then .store ⟨modules⟩
  else .admin (Admin.ofUrl source.service none) source.replies

def blank (source : Source) : Page :=
  { container := emptyContainer, held := source.held, session := none }

/-- Starts a page with modules: they are drawn, and if there is a service at an address they are
fetched anew. -/
def startWith (source : Source) (modules : List Module) : Page × Record :=
  let s := Session.start .default source.surface (serviceOf source modules)
  let (s, r) := s.handle operation (.recompute modules) .empty
  let live := source.service != "" && r.failure.isNone
  let (s, r) := if live then s.handle operation .refresh r else (s, r)
  (blank source).finish s r

def load (source : Source) : Page × Record :=
  if !source.hasContainer then
    (blank source,
     { Record.empty with log := [⟨.error, ["No #config-canvas found"]⟩] })
  else
    match initialModules source.data with
    | .error e =>
      ({ blank source with
         container := emptyContainer.withText ("Invalid module data: " ++ e.message) },
       .empty)
    | .ok modules => startWith source modules

def eventOf : Intent → Event
  | .clickNode name => .clickNode name
  | .toggle name => .toggle name
  | .save name typed => .save name typed
  | .cancel => .clickOutside

/-- The events that a click on a path of elements amounts to, and whether it was stopped.  An empty
path stands for the page outside of any element. -/
def clickEvents (path : List Element) : List Event × Bool :=
  let click := Element.click path
  let events := click.intents.map eventOf
  if click.stopped || Element.insideNodeOrPopup path then (events, click.stopped)
  else (events ++ [.clickOutside], false)

def tellAll (events : List Event) (s : Session) (r : Record) : Session × Record :=
  events.foldl (fun (s, r) e => s.handle operation e r) (s, r)

/-- Tells the session behind a page of events, if there is one. -/
def tell (p : Page) (events : List Event) : Page × Record :=
  match p.session with
  | none => (p, .empty)
  | some s =>
    let (s, r) := tellAll events s .empty
    p.finish s r

def runIn (p : Page) (f : Session → Session × Record) : Page × Record :=
  match p.session with
  | none => (p, .empty)
  | some s =>
    let (s, r) := f s
    p.finish s r

def entry (before : Page) (found stopped : Option Bool) (after : Page × Record) : Entry :=
  { found, stopped, record := after.2, page := after.1
    unchanged := before.container.same after.1.container }

def gesture (p : Page) (g : Gesture) : Entry :=
  match g.meet p.held p.container with
  | .nothing => p.entry (some false) none (p, .empty)
  | .typed container => p.entry (some true) none ({ p with container }, .empty)
  | .click path =>
    let (events, stopped) := clickEvents path
    p.entry (some true) (some stopped) (p.tell events)

def step (p : Page) : Input → Entry
  | .gesture g => p.gesture g
  | .clickContainer => p.entry none none (p.tell (clickEvents [p.container]).1)
  | .clickOutside => p.entry none none (p.tell (clickEvents []).1)
  | .setSurface surface => p.entry none none (p.runIn fun s => ({ s with surface }, .empty))
  | .setFault message =>
    p.entry none none (p.runIn fun s => ({ s with surfaceFault := message }, .empty))
  | .resize => p.entry none none (p.tell [.resize])
  | .setVisible visible => p.entry none none (p.tell [if visible then .activate else .deactivate])
  | .runFrame => p.entry none none (p.runIn fun s => s.runFrame .empty)
  | .runFrames => p.entry none none (p.runIn fun s => s.runFrames .empty)

def steps (p : Page) : List Input → List Entry
  | [] => []
  | i :: rest =>
    let e := p.step i
    e :: steps e.page rest

/-- What can be seen of a page from its loading on. -/
def run (source : Source) (inputs : List Input) : List Entry :=
  let loaded := load source
  let first : Entry :=
    { found := none, stopped := none, record := loaded.2, page := loaded.1
      unchanged := emptyContainer.same loaded.1.container }
  first :: steps loaded.1 inputs

def frameCount (p : Page) : Nat :=
  match p.session with
  | none => 0
  | some s => s.frames.length

end Page

end Honeycomb
