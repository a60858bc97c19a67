import Honeycomb.Decimal.Digits

/-!
# Fields

An ordered map from keys to values.  Keys that are array indices come first, in numeric order; the
others follow in the order in which they were first set.  Setting a key again changes its value
and keeps its place.
-/

set_option autoImplicit false

namespace Honeycomb

/-- The entries of an ordered map, first to last. -/
abbrev Fields (β : Type) := List (Text × β)

namespace Fields

variable {β γ : Type}

def indexLimit : Nat := 4294967295

/-- The array index that a key spells: digits without a needless zero, below the limit. -/
def index? (key : Text) : Option Nat :=
  let n := Digits.toNat key.units
  if key.units.all Digits.isDigit && n < indexLimit && Digits.ofNat n == key.units then some n
  else none

def has (fs : Fields β) (key : Text) : Bool := fs.any (·.1 == key)

def get? (fs : Fields β) (key : Text) : Option β := (fs.find? (·.1 == key)).map (·.2)

def keys (fs : Fields β) : List Text := fs.map (·.1)

/-- The entries with the value of a key that is there replaced. -/
def replace (fs : Fields β) (key : Text) (value : β) : Fields β :=
  fs.map fun e => if e.1 == key then (key, value) else e

/-- Puts a new index among the indices that lead. -/
def insertIndex (i : Nat) (key : Text) (value : β) : Fields β → Fields β
  | [] => [(key, value)]
  | e :: rest =>
    match index? e.1 with
    | some j => if j < i then e :: insertIndex i key value rest else (key, value) :: e :: rest
    | none => (key, value) :: e :: rest

/-- Gives a key a value. -/
def set (fs : Fields β) (key : Text) (value : β) : Fields β :=
  if fs.has key then fs.replace key value
  else
    match index? key with
    | some i => insertIndex i key value fs
    | none => fs ++ [(key, value)]

def merge (fs extra : Fields β) : Fields β := extra.foldl (fun acc e => acc.set e.1 e.2) fs

/-- The map that setting the pairs of a list one after the other gives. -/
def ofPairs (pairs : List (Text × β)) : Fields β := merge [] pairs

def mapValues (f : β → γ) (fs : Fields β) : Fields γ := fs.map fun e => (e.1, f e.2)

/-- The one key that no map built from scalars takes. -/
def reservedKey : Text := "__proto__"

def withoutReserved (fs : Fields β) : Fields β := fs.filter (·.1 != reservedKey)

/-- Whether one entry may stand before another: indices ascend and come first. -/
def Precedes (a b : Text × β) : Prop :=
  a.1 ≠ b.1 ∧
    match index? a.1, index? b.1 with
    | some i, some j => i < j
    | some _, none => True
    | none, some _ => False
    | none, none => True

/-- Whether a list of entries is in the order that setting them gives. -/
def Canonical (fs : Fields β) : Prop := fs.Pairwise Precedes

end Fields

end Honeycomb
