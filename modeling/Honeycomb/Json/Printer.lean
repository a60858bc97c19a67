import Honeycomb.Json.Basic
import Honeycomb.Decimal.Notation
import Honeycomb.Text.Letters

/-!
# Writing JSON

* `Json.render` writes a value on one line without blanks.
* `Json.renderIndented` writes every item and member on its own line, two blanks deeper than its
  container.

Only quotes, backslashes, control characters and lone surrogates are escaped; a number that is not
finite is `null`.
-/

set_option autoImplicit false

namespace Honeycomb.Json

open Text (unit unitsOf)

def hexDigit (n : Nat) : UInt16 := if n < 10 then .ofNat (48 + n) else .ofNat (87 + n)

/-- A unit as four hexadecimal digits behind `\u`. -/
def escaped (u : UInt16) : List UInt16 :=
  let n := u.toNat
  [unit '\\', unit 'u', hexDigit (n / 4096), hexDigit (n / 256 % 16), hexDigit (n / 16 % 16),
    hexDigit (n % 16)]

def escapeChar (c : Char) : List UInt16 :=
  if c = '"' then [unit '\\', unit '"']
  else if c = '\\' then [unit '\\', unit '\\']
  else if c.toNat = 8 then [unit '\\', unit 'b']
  else if c = '\t' then [unit '\\', unit 't']
  else if c = '\n' then [unit '\\', unit 'n']
  else if c.toNat = 12 then [unit '\\', unit 'f']
  else if c = '\r' then [unit '\\', unit 'r']
  else if c.toNat < 32 then escaped (unit c)
  else Text.unitsOfChar c

def escapeLetter : Text.Letter → List UInt16
  | .char c => escapeChar c
  | .lone u => escaped u

def quoted (t : Text) : List UInt16 := unit '"' :: t.letters.flatMap escapeLetter ++ [unit '"']

def numberToken (x : Float) : List UInt16 := if x.isFinite then numberUnits x else unitsOf "null"

mutual

/-- A value on one line. -/
def units : Json → List UInt16
  | .null => unitsOf "null"
  | .bool true => unitsOf "true"
  | .bool false => unitsOf "false"
  | .number x => numberToken x
  | .text t => quoted t
  | .array items => unit '[' :: itemUnits items ++ [unit ']']
  | .object members => unit '{' :: memberUnits members ++ [unit '}']

def itemUnits : List Json → List UInt16
  | [] => []
  | [v] => units v
  | v :: rest => units v ++ unit ',' :: itemUnits rest

def memberUnits : List (Text × Json) → List UInt16
  | [] => []
  | [(k, v)] => quoted k ++ unit ':' :: units v
  | (k, v) :: rest => quoted k ++ unit ':' :: units v ++ unit ',' :: memberUnits rest

end

def render (v : Json) : Text := ⟨units v⟩

def newline (depth : Nat) : List UInt16 := unit '\n' :: List.replicate (2 * depth) (unit ' ')

mutual

/-- A value whose container stands at the given depth. -/
def indentedUnits (depth : Nat) : Json → List UInt16
  | .array [] => unitsOf "[]"
  | .array items => unit '[' :: indentedItems (depth + 1) items ++ newline depth ++ [unit ']']
  | .object [] => unitsOf "\x7b\x7d"
  | .object members =>
    unit '{' :: indentedMembers (depth + 1) members ++ newline depth ++ [unit '}']
  | .null => unitsOf "null"
  | .bool true => unitsOf "true"
  | .bool false => unitsOf "false"
  | .number x => numberToken x
  | .text t => quoted t

def indentedItems (depth : Nat) : List Json → List UInt16
  | [] => []
  | [v] => newline depth ++ indentedUnits depth v
  | v :: rest => newline depth ++ indentedUnits depth v ++ unit ',' :: indentedItems depth rest

def indentedMembers (depth : Nat) : List (Text × Json) → List UInt16
  | [] => []
  | [(k, v)] => newline depth ++ quoted k ++ unit ':' :: unit ' ' :: indentedUnits depth v
  | (k, v) :: rest =>
    newline depth ++ quoted k ++ unit ':' :: unit ' ' :: indentedUnits depth v ++ unit ',' ::
      indentedMembers depth rest

end

/-- A value on as many lines as it has items and members. -/
def renderIndented (v : Json) : Text := ⟨indentedUnits 0 v⟩

end Honeycomb.Json
