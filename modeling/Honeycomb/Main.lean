import Honeycomb.Command.Run
import Honeycomb.Html.Template

/-!
# The command as a program

Reads the file that the arguments name, runs the command, and carries out what it decided.  There is
no network and no program to open files with.
-/

set_option autoImplicit false

namespace Honeycomb.Command

def readText? (path : String) : IO (Option String) := do
  try
    let bytes ← IO.FS.readBinFile path
    return some (String.ofList (Text.Utf8.decode (bytes.toList.map (·.toNat))))
  catch _ => return none

/-- What is known of a path: its text, that it is a directory, or nothing. -/
def look (path : String) : IO (List (String × Option String)) := do
  if ← ((← IO.currentDir) / path).isDir then return [(path, none)]
  match ← readText? path with
  | some text => return [(path, some text)]
  | none => return []

/-- The paths that arguments name: the file to read, and what lies on the way to the file to
write. -/
def pathsOf (arguments : List String) (apiKey : Option String) : List String :=
  match parse arguments apiKey with
  | .run o => o.input.toList ++ (o.output.map Path.stations).getD []
  | _ => []

/-- What the command finds around it, as far as its arguments concern it. -/
def surroundings (arguments : List String) : IO World := do
  let began ← IO.monoMsNow
  let apiKey ← IO.getEnv "HEXDECK_API_KEY"
  let files ← (pathsOf arguments apiKey).mapM look
  let code ← readText? "visualiser/dist/bundle.js"
  let ended ← IO.monoMsNow
  return {
    directory := (← IO.currentDir).toString
    temporary := "/tmp"
    stamp := toString ended
    elapsed := toString (ended - began)
    files := files.flatten
    apiKey
    replies := []
    complaint := fun _ => "the text is no JSON"
    temporaryObstacle := if ← ((← IO.currentDir) / "/tmp").isDir then none else some .missing
    opens := false
    parts := ⟨"visualiser", some Html.template, code.map .ofString⟩ }

def writeFiles (world : World) (outcome : Outcome) : IO Unit := do
  for (name, text) in outcome.temporary do
    IO.FS.writeFile (world.temporary ++ "/" ++ name) text
  for (path, text) in outcome.written do
    IO.FS.writeFile path text

end Honeycomb.Command

def main (arguments : List String) : IO UInt32 := do
  let world ← Honeycomb.Command.surroundings arguments
  let outcome := Honeycomb.Command.run Honeycomb.Command.parse arguments world
  Honeycomb.Command.writeFiles world outcome
  IO.print outcome.stdout
  IO.eprint outcome.stderr
  return outcome.exit.toUInt32
