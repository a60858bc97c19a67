import Honeycomb.Controller.Session

/-!
# Scripts

A session is driven by operations from outside, one after the other.  Operations are numbered from
zero; a refresh or an edit may end during a later operation.
-/

set_option autoImplicit false

namespace Honeycomb

/-- The value that a call is answered with by hand. -/
inductive Answer
  | modules (modules : List Module)
  | accepted (accepted : Bool)

/-- The event that an answer to a call is, if it is one that the call can have. -/
def Call.answered? : Call → Answer → Option Event
  | .fetch refresh, .modules modules => some (.fetched refresh (.ok modules))
  | .toggle name, .accepted accepted => some (.toggled name (.ok accepted))
  | .update name _, .accepted accepted => some (.saved name (.ok accepted))
  | _, _ => none

/-- An operation from outside. -/
inductive Operation
  | tell (event : Event)
  | setSurface (surface : Viewport Float)
  /-- From now on measuring fails with a message, or works again. -/
  | setFault (message : Option Text)
  | runFrame
  | runFrames
  | answer (call : Nat) (answer : Answer)
  | reject (call : Nat) (failure : Failure)

namespace Session

/-- The call of a number, if it is under way, and the session without it. -/
def takeCall? (s : Session) (number : Nat) : Option (Pending × Session) :=
  (s.pending.find? (·.number == number)).map fun p =>
    (p, { s with pending := s.pending.filter (·.number != number) })

/-- Carries out an operation as far as it goes before any call is answered. -/
def begin (s : Session) (number : Nat) : Operation → Session × Record
  | .tell event => s.handle number event .empty
  | .setSurface surface => ({ s with surface }, .empty)
  | .setFault message => ({ s with surfaceFault := message }, .empty)
  | .runFrame => s.runFrame .empty
  | .runFrames => s.runFrames .empty
  | .answer call answer =>
    match s.takeCall? call with
    | none => (s, .empty)
    | some (p, rest) =>
      match p.call.answered? answer with
      | none => (s, .empty)
      | some event => rest.resume p.operation event .empty
  | .reject call failure =>
    match s.takeCall? call with
    | none => (s, .empty)
    | some (p, rest) => rest.resume p.operation (p.call.failed failure) .empty

/-- Carries out an operation and all that follows from it without another one. -/
def run (s : Session) (number : Nat) (operation : Operation) : Session × Record :=
  let (s, r) := s.begin number operation
  s.settle r

/-- Carries out operations in order, and gives for each what was seen and the session after it. -/
def runAll (s : Session) (number : Nat) : List Operation → List (Record × Session)
  | [] => []
  | operation :: rest =>
    let (s, r) := s.run number operation
    (r, s) :: runAll s (number + 1) rest

end Session

end Honeycomb
