import Honeycomb.Module.Source
import Honeycomb.Service.Admin
import Honeycomb.Html.Page
import Honeycomb.Command.Path

/-!
# The surroundings of the command

The command runs in a directory, with files, an environment, a network that answers its requests, a
program that opens files, and a clock.  Paths are resolved against the directory.  A directory is
there if it holds something that is known.

A path that is read is resolved as a text.  A path that is written is walked part by part, so that
what it passes through on its way up must be there, too.
-/

set_option autoImplicit false

namespace Honeycomb.Command

/-- What keeps a file from being written. -/
inductive World.Obstacle
  /-- A directory stands where the file should, or only a directory can be meant. -/
  | directory
  /-- A directory on the way is not there. -/
  | missing
  /-- What should be a directory on the way is a file. -/
  | file
  | tooLong
  | denied
deriving DecidableEq, Repr

/-- What the command finds around it. -/
structure World where
  /-- The path of the directory it runs in. -/
  directory : String
  /-- The path of the directory for temporary files. -/
  temporary : String
  /-- The time, as it stands in the names of temporary files. -/
  stamp : String
  elapsed : String
  /-- The known files by path, with their texts; a directory has none. -/
  files : List (String × Option String)
  apiKey : Option String
  replies : List Reply
  /-- What the reader of JSON says of a text that it refuses. -/
  complaint : Text → Text
  /-- What keeps temporary files from being written, if anything does. -/
  temporaryObstacle : Option World.Obstacle
  opens : Bool
  parts : Html.Parts

namespace World

def full (w : World) (path : String) : String :=
  if Path.isAbsolute path then path else w.directory ++ "/" ++ path

/-- The path that names a file from everywhere. -/
def resolve (w : World) (path : String) : String :=
  let full := w.full path
  (if Path.isAbsolute full then "/" else "") ++ String.intercalate "/" (Path.segments full)

def place (w : World) (path : String) : List String := Path.segments (w.full path)

/-- What is found at a place. -/
def contentAt (w : World) (place : List String) : Source.Content :=
  match w.files.find? fun f => w.place f.1 == place with
  | some (_, some text) => .text text
  | some (_, none) => .directory
  | none =>
    if place.isPrefixOf (Path.segments w.directory) ||
        w.files.any fun f => place.isPrefixOf (w.place f.1) then .directory
    else .absent

def content (w : World) (path : String) : Source.Content := w.contentAt (w.place path)

def isDirectory (w : World) (place : List String) : Bool := w.contentAt place == .directory

def Obstacle.message : Obstacle → String
  | .directory => "EISDIR: illegal operation on a directory"
  | .missing => "ENOENT: no such file or directory"
  | .file => "ENOTDIR: not a directory"
  | .tooLong => "ENAMETOOLONG: name too long"
  | .denied => "EACCES: permission denied"

/-- Why a file cannot be written. -/
structure WriteError where
  obstacle : Obstacle
  path : String
deriving DecidableEq, Repr

def WriteError.message (e : WriteError) : String :=
  e.obstacle.message ++ ", open '" ++ e.path ++ "'"

/-- The most bytes that a path may have. -/
def longestPath : Nat := 4095

def longestPart : Nat := 255

/-- Goes from a place into the next part of a path, which must be there. -/
def enter (w : World) (here : List String) (part : String) : Except Obstacle (List String) :=
  if !w.isDirectory here then .error .file
  else if part = "." then .ok here
  else if part = ".." then .ok here.dropLast
  else if longestPart < part.utf8ByteSize then .error .tooLong
  else if w.contentAt (here ++ [part]) = .absent then .error .missing
  else .ok (here ++ [part])

/-- What keeps a file of a name from being written at a place, if anything does.  `slash` says that
a slash follows the name. -/
def obstacleAt? (w : World) (here : List String) (name : String) (slash : Bool) :
    Option Obstacle :=
  if !w.isDirectory here then some .file
  else if name = "." ∨ name = ".." ∨ slash then some .directory
  else if longestPart < name.utf8ByteSize then some .tooLong
  else if w.isDirectory (here ++ [name]) then some .directory
  else none

/-- What keeps a file from being written at a path, if anything does.  Every part of the path but
the last one is entered in turn. -/
def obstacle? (w : World) (path : String) : Option Obstacle :=
  if longestPath < path.utf8ByteSize then some .tooLong
  else
    match (Path.parts path).getLast? with
    | none => some .directory
    | some name =>
      let start := if Path.isAbsolute path then [] else Path.segments w.directory
      match (Path.parts path).dropLast.foldlM w.enter start with
      | .error obstacle => some obstacle
      | .ok here => w.obstacleAt? here name (Path.hasFinalSlash path)

def writable (w : World) (path : String) : Except WriteError Unit :=
  match w.obstacle? path with
  | some obstacle => .error ⟨obstacle, path⟩
  | none => .ok ()

/-- The name that a path has inside the directory, if it lies there. -/
def nameInside? (w : World) (path : String) : Option String :=
  let own := Path.segments w.directory
  let all := w.place path
  if own.isPrefixOf all then some (String.intercalate "/" (all.drop own.length)) else none

/-- The files of the directory that writing some texts creates or changes, by name. -/
def changes (w : World) (written : List (String × String)) : List (String × String) :=
  written.filterMap fun (path, text) =>
    if w.content path = .text text then none else (w.nameInside? path).map fun name => (name, text)

end World

end Honeycomb.Command
