import Honeycomb.Json.Basic
import Honeycomb.Decimal.Reader

/-!
# Reading JSON

A strict reader: no comments, no trailing commas, only the four blanks of the format between tokens.
A key that an object repeats keeps its first place and takes its last value.  What stands in quotes
is read unit by unit, so that a surrogate may be escaped, or stand there, without its partner.
-/

set_option autoImplicit false

namespace Honeycomb.Json

open Text (unit unitsOf dropStart?)

def isBlank (u : UInt16) : Bool :=
  u == unit ' ' || u == unit '\t' || u == unit '\n' || u == unit '\r'

def skipBlanks (us : List UInt16) : List UInt16 := us.dropWhile isBlank

def hexValue? (u : UInt16) : Option Nat :=
  if unit '0' ≤ u ∧ u ≤ unit '9' then some (u.toNat - 48)
  else if unit 'a' ≤ u ∧ u ≤ unit 'f' then some (u.toNat - 87)
  else if unit 'A' ≤ u ∧ u ≤ unit 'F' then some (u.toNat - 55)
  else none

def hexUnit? (a b c d : UInt16) : Option UInt16 := do
  let a ← hexValue? a
  let b ← hexValue? b
  let c ← hexValue? c
  let d ← hexValue? d
  some (.ofNat (((a * 16 + b) * 16 + c) * 16 + d))

def shortEscape? (u : UInt16) : Option UInt16 :=
  if u = unit '"' ∨ u = unit '\\' ∨ u = unit '/' then some u
  else if u = unit 'b' then some 8
  else if u = unit 'f' then some 12
  else if u = unit 'n' then some 10
  else if u = unit 'r' then some 13
  else if u = unit 't' then some 9
  else none

/-- Reads a quoted text from after its opening quote, and gives what follows its closing one.
`done` holds the units read so far, last first. -/
def readText (done : List UInt16) : List UInt16 → Option (Text × List UInt16)
  | [] => none
  | u :: rest =>
    if u = unit '"' then some (⟨done.reverse⟩, rest)
    else if u = unit '\\' then
      match rest with
      | [] => none
      | e :: rest =>
        if e = unit 'u' then
          match rest with
          | a :: b :: c :: d :: rest =>
            match hexUnit? a b c d with
            | some n => readText (n :: done) rest
            | none => none
          | _ => none
        else
          match shortEscape? e with
          | some n => readText (n :: done) rest
          | none => none
    else if u < 32 then none
    else readText (u :: done) rest

/-- Reads the digits behind a point, if there is one; a point without digits is refused. -/
def readFraction : List UInt16 → Option (List UInt16 × List UInt16)
  | [] => some ([], [])
  | u :: rest =>
    if u = unit '.' then
      let (digits, rest) := Digits.take rest
      if digits.isEmpty then none else some (digits, rest)
    else some ([], u :: rest)

def readExponentDigits (negative : Bool) (us : List UInt16) : Option (Int × List UInt16) :=
  let (digits, rest) := Digits.take us
  if digits.isEmpty then none
  else
    let n : Int := Digits.toNat digits
    some (if negative then -n else n, rest)

def readSignedExponent : List UInt16 → Option (Int × List UInt16)
  | [] => none
  | u :: rest =>
    if u = unit '-' then readExponentDigits true rest
    else if u = unit '+' then readExponentDigits false rest
    else readExponentDigits false (u :: rest)

def readExponent : List UInt16 → Option (Int × List UInt16)
  | [] => some (0, [])
  | mark :: rest =>
    if mark = unit 'e' ∨ mark = unit 'E' then readSignedExponent rest else some (0, mark :: rest)

/-- Reads the digits before a point: one zero, or digits that do not start with one. -/
def readWhole : List UInt16 → Option (List UInt16 × List UInt16)
  | [] => none
  | u :: rest =>
    if u = unit '0' then some ([u], rest)
    else
      let (digits, rest) := Digits.take (u :: rest)
      if digits.isEmpty then none else some (digits, rest)

def readUnsigned (us : List UInt16) : Option (Float × List UInt16) := do
  let (whole, rest) ← readWhole us
  let (fraction, rest) ← readFraction rest
  let (exponent, rest) ← readExponent rest
  some (floatOfParts whole fraction exponent, rest)

def readNumber : List UInt16 → Option (Float × List UInt16)
  | [] => none
  | u :: rest =>
    if u = unit '-' then (readUnsigned rest).map fun (x, rest) => (-x, rest)
    else readUnsigned (u :: rest)

def readWord (word : String) (value : Json) (us : List UInt16) : Option (Json × List UInt16) :=
  (dropStart? (unitsOf word) us).map fun rest => (value, rest)

/-- Reads a value that is neither a text nor a container. -/
def readScalar (us : List UInt16) : Option (Json × List UInt16) :=
  readWord "null" .null us <|> readWord "true" (.bool true) us <|>
    readWord "false" (.bool false) us <|>
    (readNumber us).map fun (x, rest) => (.number x, rest)

/-- What follows a mark that must come next, blanks aside. -/
def mark? (c : Char) (us : List UInt16) : Option (List UInt16) :=
  dropStart? [unit c] (skipBlanks us)

/-- Reads a key with the colon behind it. -/
def readKey (us : List UInt16) : Option (Text × List UInt16) := do
  let rest ← mark? '"' us
  let (key, rest) ← readText [] rest
  let rest ← mark? ':' rest
  some (key, rest)

mutual

/-- Reads a value.  The fuel bounds the tokens read. -/
def readValue : Nat → List UInt16 → Option (Json × List UInt16)
  | 0, _ => none
  | fuel + 1, us =>
    match mark? '"' us, mark? '[' us, mark? '{' us with
    | some rest, _, _ => (readText [] rest).map fun (t, rest) => (.text t, rest)
    | _, some rest, _ =>
      match mark? ']' rest with
      | some rest => some (.array [], rest)
      | none => readItems fuel [] rest
    | _, _, some rest =>
      match mark? '}' rest with
      | some rest => some (.object [], rest)
      | none => readMembers fuel [] rest
    | _, _, _ => readScalar (skipBlanks us)

/-- Reads the items of an array up to its closing bracket.  `done` holds those read so far, last
first. -/
def readItems : Nat → List Json → List UInt16 → Option (Json × List UInt16)
  | 0, _, _ => none
  | fuel + 1, done, us =>
    match readValue fuel us with
    | none => none
    | some (v, rest) =>
      match mark? ',' rest, mark? ']' rest with
      | some rest, _ => readItems fuel (v :: done) rest
      | _, some rest => some (.array (v :: done).reverse, rest)
      | _, _ => none

/-- Reads the members of an object up to its closing brace.  `done` holds those read so far, last
first. -/
def readMembers : Nat → List (Text × Json) → List UInt16 → Option (Json × List UInt16)
  | 0, _, _ => none
  | fuel + 1, done, us =>
    match readKey us with
    | none => none
    | some (key, rest) =>
      match readValue fuel rest with
      | none => none
      | some (v, rest) =>
        match mark? ',' rest, mark? '}' rest with
        | some rest, _ => readMembers fuel ((key, v) :: done) rest
        | _, some rest => some (.object (Fields.ofPairs ((key, v) :: done).reverse), rest)
        | _, _ => none

end

def parseUnits? (us : List UInt16) : Option Json :=
  match readValue (2 * us.length + 2) us with
  | some (v, rest) => if (skipBlanks rest).isEmpty then some v else none
  | none => none

/-- The value that a text stands for, if it is JSON. -/
def parse? (t : Text) : Option Json := parseUnits? t.units

end Honeycomb.Json
