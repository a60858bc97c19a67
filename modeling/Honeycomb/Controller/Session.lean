import Honeycomb.Controller.Step
import Honeycomb.Service.Store
import Honeycomb.Service.Admin

/-!
# Sessions

A session is a controller together with what it lives in: a surface of some size, a queue of retries
that are due when the host draws next, a service, and the service calls under way.

* `Session.handle` tells the controller of an event and carries out the effects.
* `Session.settle` lets the service answer the calls under way, as far as it does so by itself.
* `Session.runFrames` runs the retries until none is left.

A `Record` collects what can be seen from outside.
-/

set_option autoImplicit false

namespace Honeycomb

/-- Where the answers to calls come from. -/
inductive Service
  | store (store : Store)
  | admin (admin : Admin) (replies : List Reply)
  /-- Somebody answers the calls by hand. -/
  | manual
deriving DecidableEq

/-- A call under way. -/
structure Pending where
  /-- The call's number, in the order in which calls are made. -/
  number : Nat
  call : Call
  /-- The operation that ends when this call and all that follows from it are done. -/
  operation : Nat
deriving DecidableEq

/-- What could be seen from outside during a step. -/
structure Record where
  failure : Option Failure
  views : List View
  calls : List Call
  requests : List Request
  log : List LogLine
  /-- The operations that came to their end, with what went wrong. -/
  ended : List (Nat × Option Failure)
deriving DecidableEq

namespace Record

def empty : Record := ⟨none, [], [], [], [], []⟩

end Record

def Call.failed (failure : Failure) : Call → Event
  | .fetch refresh => .fetched refresh (.error failure)
  | .toggle name => .toggled name (.error failure)
  | .update name _ => .saved name (.error failure)

/-- A controller and what it lives in. -/
structure Session where
  config : Controller.Config
  surface : Viewport Float
  /-- Set while the surface cannot be measured. -/
  surfaceFault : Option Text
  controller : Controller
  frames : List Retry
  service : Service
  pending : List Pending
  callCount : Nat

namespace Session

def start (config : Controller.Config) (surface : Viewport Float) (service : Service) : Session :=
  { config, surface, surfaceFault := none, controller := .initial, frames := [],
    service, pending := [], callCount := 0 }

def measure (s : Session) : Except Failure (Viewport Float) :=
  match s.surfaceFault with
  | some message => .error (.raised message)
  | none => .ok s.surface

def answerOfStore (store : Store) : Call → Event × Store
  | .fetch refresh => (.fetched refresh (.ok store.fetch), store)
  | .toggle name =>
    let (accepted, store) := store.toggle name
    (.toggled name (.ok accepted), store)
  | .update name fields =>
    let (accepted, store) := store.update name fields
    (.saved name (.ok accepted), store)

def requestOf? (admin : Admin) : Call → Option Request
  | .fetch _ => some admin.fetchRequest
  | .toggle name => admin.toggleRequest? name
  | .update name fields => admin.updateRequest? name fields

def eventOfReply (reply : Reply) : Call → Event
  | .fetch refresh => .fetched refresh reply.modules
  | .toggle name => .toggled name reply.accepted
  | .update name _ => .saved name reply.accepted

/-- The answer of a service to a call, if it answers by itself, with the service afterwards. -/
def answer? : Service → Call → Option (Event × Service)
  | .store store, call =>
    let (event, store) := answerOfStore store call
    some (event, .store store)
  | .admin admin replies, call =>
    match requestOf? admin call with
    | none => some (call.failed .unaddressable, .admin admin replies)
    | some _ =>
      let (reply, replies) := Reply.next replies
      some (eventOfReply reply call, .admin admin replies)
  | .manual, _ => none

def requestsOf : Service → Call → List Request
  | .admin admin _, call => (requestOf? admin call).toList
  | _, _ => []

/-- Carries out an effect on behalf of an operation. -/
def carryOut (operation : Nat) : Session × Record → Effect → Session × Record
  | (s, r), .draw view => (s, { r with views := r.views ++ [view] })
  | (s, r), .log line => (s, { r with log := r.log ++ [line] })
  | (s, r), .schedule retry => ({ s with frames := s.frames ++ [retry] }, r)
  | (s, r), .call call =>
    ({ s with
        pending := s.pending ++ [⟨s.callCount, call, operation⟩], callCount := s.callCount + 1 },
     { r with calls := r.calls ++ [call], requests := r.requests ++ requestsOf s.service call })

/-- Tells the controller of an event on behalf of an operation and carries out what comes of it. -/
def tell (s : Session) (operation : Nat) (event : Event) (r : Record) :
    Controller.Outcome × Session × Record :=
  let outcome := s.controller.step s.config s.measure event
  let (s, r) :=
    outcome.effects.foldl (carryOut operation) ({ s with controller := outcome.controller }, r)
  (outcome, s, r)

/-- Handles an event that comes from outside; a failure breaks the step off. -/
def handle (s : Session) (operation : Nat) (event : Event) (r : Record) : Session × Record :=
  let (outcome, s, r) := s.tell operation event r
  (s, { r with failure := if r.failure.isSome then r.failure else outcome.failure })

def isCall : Effect → Bool
  | .call _ => true
  | _ => false

/-- Handles the answer to a call of an operation.  The operation ends here unless it makes another
call. -/
def resume (s : Session) (operation : Nat) (event : Event) (r : Record) : Session × Record :=
  let (outcome, s, r) := s.tell operation event r
  if outcome.effects.any isCall then (s, r)
  else (s, { r with ended := r.ended ++ [(operation, outcome.failure)] })

/-- Lets the service answer up to so many of the calls under way. -/
def settleCalls : Nat → Session → Record → Session × Record
  | 0, s, r => (s, r)
  | fuel + 1, s, r =>
    match s.pending with
    | [] => (s, r)
    | p :: rest =>
      match answer? s.service p.call with
      | none => (s, r)
      | some (event, service) =>
        let (s, r) := { s with pending := rest, service }.resume p.operation event r
        settleCalls fuel s r

/-- Lets the service answer the calls under way and those that follow from them: a fetch is followed
by no call, an edit by one fetch. -/
def settle (s : Session) (r : Record) : Session × Record := settleCalls (2 * s.pending.length) s r

/-- Runs the oldest retry, if there is one. -/
def runFrame (s : Session) (r : Record) : Session × Record :=
  match s.frames with
  | [] => (s, r)
  | retry :: rest => { s with frames := rest }.handle 0 (.retry retry) r

/-- How often the queued retries can still be put off, counting each one itself. -/
def framesLeft (s : Session) : Nat :=
  s.frames.foldr (fun retry left => Controller.retryLimit + 1 - retry.count + left) 0

/-- Runs retries until none is left, one fails, or the fuel is used up. -/
def runFramesFor : Nat → Session → Record → Session × Record
  | 0, s, r => (s, r)
  | fuel + 1, s, r =>
    if s.frames.isEmpty || r.failure.isSome then (s, r)
    else
      let (s, r) := s.runFrame r
      runFramesFor fuel s r

def runFrames (s : Session) (r : Record) : Session × Record := runFramesFor s.framesLeft s r

end Session

end Honeycomb
