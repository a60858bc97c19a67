import Honeycomb.Text.Basic

/-!
# The letters of a text

A text falls apart into characters and lone surrogates in exactly one way: a high surrogate that is
followed by a low one makes a character with it, and every other surrogate is alone.
-/

set_option autoImplicit false

namespace Honeycomb.Text

/-- Whether a unit opens a pair. -/
def isHighSurrogate (u : UInt16) : Bool := 0xD800 ≤ u && u < 0xDC00

/-- Whether a unit closes a pair. -/
def isLowSurrogate (u : UInt16) : Bool := 0xDC00 ≤ u && u < 0xE000

/-- The character that two surrogates make together. -/
def charOfPair (high low : UInt16) : Char :=
  Char.ofNat (0x10000 + (high.toNat - 0xD800) * 0x400 + (low.toNat - 0xDC00))

/-- What a text consists of. -/
inductive Letter
  | char (c : Char)
  /-- A surrogate outside of a pair. -/
  | lone (u : UInt16)
deriving DecidableEq, Repr

namespace Letter

def ofUnit (u : UInt16) : Letter :=
  if isHighSurrogate u || isLowSurrogate u then .lone u else .char (Char.ofNat u.toNat)

/-- Puts a unit in front of letters; a high surrogate joins a low one that stands first. -/
def cons (u : UInt16) : List Letter → List Letter
  | .lone v :: rest =>
    if isHighSurrogate u && isLowSurrogate v then .char (charOfPair u v) :: rest
    else ofUnit u :: .lone v :: rest
  | rest => ofUnit u :: rest

def units : Letter → List UInt16
  | .char c => unitsOfChar c
  | .lone u => [u]

def char? : Letter → Option Char
  | .char c => some c
  | .lone _ => none

end Letter

def letters (t : Text) : List Letter := t.units.foldr Letter.cons []

/-- The characters of a text, if it has no lone surrogates. -/
def chars? (t : Text) : Option (List Char) := t.letters.mapM Letter.char?

/-- A text as a string, with the replacement character for every lone surrogate. -/
def toString (t : Text) : String :=
  String.ofList (t.letters.map fun l => l.char?.getD replacement)

end Honeycomb.Text
