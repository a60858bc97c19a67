import Honeycomb.Text.Order

/-!
# Near misses

The words that a mistyped word may have meant: those at the least edit distance, if that is at most
three and more than two fifths of the longer word stay in place.  A letter put in, left out or
changed counts one, and so do two neighbours swapped.
-/

set_option autoImplicit false

namespace Honeycomb.Suggestion

/-- Words further apart than this are never near. -/
def farthest : Nat := 3

def cell (row : List Nat) (i : Nat) : Nat := row.getD i 0

/-- The rest of a row of the distance table.  `left` is the cell to the left, `above` and `aboveTwo`
are the two rows above it, `i` is the index of the cell to fill, `previous` is the letter before it,
and `b` and `beforeB` are the letters of this row and of the row above. -/
def fillRow (above aboveTwo : List Nat) (b : UInt16) (beforeB : Option UInt16) :
    Nat → Nat → Option UInt16 → List UInt16 → List Nat
  | _, _, _, [] => []
  | i, left, previous, a :: rest =>
    let cost := if a = b then 0 else 1
    let plain := min (min (left + 1) (cell above i + 1)) (cell above (i - 1) + cost)
    let swapped := previous == some b && beforeB == some a
    let best := if swapped then min plain (cell aboveTwo (i - 2) + 1) else plain
    best :: fillRow above aboveTwo b beforeB (i + 1) best (some a) rest

/-- The last row of the distance table of a word against letters; `j` counts the rows so far. -/
def lastRow (word : List UInt16) :
    Nat → List Nat → List Nat → Option UInt16 → List UInt16 → List Nat
  | _, above, _, _, [] => above
  | j, above, aboveTwo, beforeB, b :: rest =>
    let row := (j + 1) :: fillRow above aboveTwo b beforeB 1 (j + 1) none word
    lastRow word (j + 1) row above (some b) rest

/-- The edit distance of two words; words whose lengths differ by more than the farthest distance
count as having nothing in common. -/
def distance (a b : List UInt16) : Nat :=
  if farthest < a.length - b.length ∨ farthest < b.length - a.length then max a.length b.length
  else cell (lastRow a 0 (List.range (a.length + 1)) [] none b) a.length

def isSimilar (a b : List UInt16) (d : Nat) : Bool :=
  let length := max a.length b.length
  decide (2 * length < 5 * (length - d))

/-- The nearest of some candidates to a word, in order. -/
def nearest (word : String) (candidates : List String) : List String :=
  let a := Text.unitsOf word
  let near := candidates.filterMap fun c =>
    let b := Text.unitsOf c
    let d := distance a b
    if 1 < b.length && isSimilar a b d && d ≤ farthest then some (d, c) else none
  let best := near.foldl (fun m e => min m e.1) farthest
  ((near.filter (·.1 == best)).map (·.2)).mergeSort fun v w => Text.inOrder v w

end Honeycomb.Suggestion
