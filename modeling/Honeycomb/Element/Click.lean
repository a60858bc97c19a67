import Honeycomb.Element.Basic

/-!
# Clicks

A click takes the action of the element that is clicked, then those of the elements around it from
the inside out.  The action of a node keeps the click from going any further; every other action
lets it pass on.  Which elements a click passes is settled before the first action is taken.
-/

set_option autoImplicit false

namespace Honeycomb

/-- What a click asks for. -/
inductive Intent
  | clickNode (name : Text)
  | toggle (name : Text)
  | save (name : Text) (typed : Fields Text)
  | cancel
deriving DecidableEq, Repr

/-- What comes of a click. -/
structure Click where
  intents : List Intent
  /-- Whether an element kept the click from going any further. -/
  stopped : Bool
deriving DecidableEq, Repr

namespace Element

def nodeClass : Text := "hex-node"

def popupClass : Text := "hex-popup"

/-- The texts that the inputs of a popup hold, by key. -/
def typedFields (popup : Element) : Fields Text :=
  Fields.withoutReserved <| Fields.ofPairs <| popup.inputs.filterMap fun i =>
    (Fields.get? i.dataset "key").map fun key => (key, i.value.getD "")

/-- The texts in the popup that is among the elements of a path. -/
def typedAround (path : List Element) : Fields Text :=
  match path.find? (·.hasClass popupClass) with
  | some popup => popup.typedFields
  | none => []

/-- What an action asks for, when taken inside the given elements. -/
def intent (path : List Element) : Action → Intent
  | .openNode name => .clickNode name
  | .toggle name => .toggle name
  | .save name => .save name (typedAround path)
  | .cancel => .cancel

def stops : Action → Bool
  | .openNode _ => true
  | _ => false

/-- Passes a click through the elements of a path, from the inside out. -/
def clickAlong (path : List Element) : List Element → Click
  | [] => ⟨[], false⟩
  | e :: rest =>
    match e.action with
    | none => clickAlong path rest
    | some a =>
      if stops a then ⟨[intent path a], true⟩
      else
        let further := clickAlong path rest
        { further with intents := intent path a :: further.intents }

/-- What comes of a click on the first element of a path, around which the others lie. -/
def click (path : List Element) : Click := clickAlong path path

def insideNodeOrPopup (path : List Element) : Bool :=
  path.any fun e => e.hasClass nodeClass || e.hasClass popupClass

def isNodeOf (name : Text) (e : Element) : Bool :=
  e.hasClass nodeClass && e.attr? "data-name" == some name

end Element

/-- What a user does with the elements inside another one. -/
inductive Gesture
  | clickClass (className : Text)
  | clickNode (name : Text)
  | typeText (index : Nat) (value : Text)
deriving DecidableEq, Repr

/-- What a gesture meets: nothing, an element to click with those around it, or an input that takes
the text. -/
inductive Gesture.Effect
  | nothing
  | click (path : List Element)
  | typed (root : Element)

namespace Gesture

def clickFirst (condition : Element → Bool) (root : Element) : Effect :=
  match root.pathInside? condition with
  | none => .nothing
  | some path => .click path

/-- What a gesture meets inside an element, where inputs hold `held` of the texts typed. -/
def meet (held : Text → Text) (root : Element) : Gesture → Effect
  | .clickClass className => clickFirst (·.hasClass className) root
  | .clickNode name => clickFirst (Element.isNodeOf name) root
  | .typeText index value =>
    if index < root.inputs.length then .typed (root.typeInto (held value) index) else .nothing

end Gesture

end Honeycomb
