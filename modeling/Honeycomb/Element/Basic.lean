import Honeycomb.Fields

/-!
# Elements

What a page consists of: a tree of elements with attributes, style, data, text and children.  An
element may have an action, which a click on it or inside it takes.

* `Element.inputs` lists the inputs of a tree in the order of the page, and `Element.typeInto`
  changes what one of them holds.
* `Element.pathInside?` finds an element together with those around it.
-/

set_option autoImplicit false

namespace Honeycomb

/-- What a click on an element does. -/
inductive Action
  | openNode (name : Text)
  | toggle (name : Text)
  | save (name : Text)
  | cancel
deriving DecidableEq, Repr

/-- An element of a page. -/
structure Element where
  tag : Text
  /-- Whether the element is part of a drawing. -/
  inDrawing : Bool
  /-- The attributes in the order in which they were set. -/
  attrs : List (Text × Text)
  style : List (Text × Text)
  dataset : List (Text × Text)
  /-- The text that an input holds. -/
  value : Option Text
  text : Text
  action : Option Action
  children : List Element

namespace Element

/-- An element of a page with attributes. -/
def html (tag : Text) (attrs : List (Text × Text)) : Element :=
  ⟨tag, false, attrs, [], [], none, "", none, []⟩

def drawing (tag : Text) (attrs : List (Text × Text)) : Element :=
  ⟨tag, true, attrs, [], [], none, "", none, []⟩

def ofClass (tag className : Text) : Element := html tag [("class", className)]

def withStyle (e : Element) (style : List (Text × Text)) : Element := { e with style }

/-- The element with a text in place of its children. -/
def withText (e : Element) (text : Text) : Element := { e with text, children := [] }

def withChildren (e : Element) (children : List Element) : Element :=
  { e with text := "", children }

def withAction (e : Element) (action : Action) : Element := { e with action := some action }

/-- An input for a key whose value was set to a text.  What it holds of the text is up to the
document that it is made for; in a browser that is `Text.oneLine`. -/
def input (held : Text → Text) (key value : Text) : Element :=
  { html "input" [] with dataset := [("key", key)], value := some (held value) }

def isInput (e : Element) : Bool := e.tag == "input"

def attr? (e : Element) (name : Text) : Option Text := Fields.get? e.attrs name

def classes (e : Element) : List Text :=
  match e.attr? "class" with
  | none => []
  | some names => (names.units.splitOn (Text.unit ' ')).map Text.mk

def hasClass (e : Element) (className : Text) : Bool := e.classes.contains className

mutual

/-- Whether two elements are the same, actions included. -/
def same : Element → Element → Bool
  | ⟨tag, d, attrs, style, data, value, text, action, children⟩,
    ⟨tag', d', attrs', style', data', value', text', action', children'⟩ =>
    tag == tag' && d == d' && attrs == attrs' && style == style' && data == data' &&
      value == value' && text == text' && action == action' && sameAll children children'

def sameAll : List Element → List Element → Bool
  | [], [] => true
  | e :: es, e' :: es' => same e e' && sameAll es es'
  | _, _ => false

end

mutual

/-- The inputs among an element and those inside it, in the order of the page. -/
def inputs : Element → List Element
  | e@⟨_, _, _, _, _, _, _, _, children⟩ =>
    if e.isInput then e :: inputsOfAll children else inputsOfAll children

def inputsOfAll : List Element → List Element
  | [] => []
  | e :: es => inputs e ++ inputsOfAll es

end

mutual

/-- Makes a text the value of the input of an index, counted in the order of the page. -/
def typeInto (value : Text) : Nat → Element → Element
  | index, e@⟨_, _, _, _, _, _, _, _, children⟩ =>
    match e.isInput, index with
    | true, 0 => { e with value := some value }
    | true, index + 1 => { e with children := typeIntoAll value index children }
    | false, index => { e with children := typeIntoAll value index children }

def typeIntoAll (value : Text) : Nat → List Element → List Element
  | _, [] => []
  | index, e :: es =>
    let here := e.inputs.length
    if index < here then typeInto value index e :: es else e :: typeIntoAll value (index - here) es

end

mutual

/-- The first element inside an element that satisfies a condition, followed by the elements around
it from the inside out. -/
def pathInside? (p : Element → Bool) : Element → Option (List Element)
  | e@⟨_, _, _, _, _, _, _, _, children⟩ => (pathAmong? p children).map (· ++ [e])

/-- The same among some elements, the elements themselves included. -/
def pathAmong? (p : Element → Bool) : List Element → Option (List Element)
  | [] => none
  | e :: es =>
    if p e then some [e]
    else
      match pathInside? p e with
      | some path => some path
      | none => pathAmong? p es

end

end Element

end Honeycomb
