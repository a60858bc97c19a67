/-!
# Paths

A path names a place by the parts between its slashes, from the root or from some directory.
-/

set_option autoImplicit false

namespace Honeycomb.Command.Path

/-- The parts of a path between its slashes; an empty one does not count. -/
def parts (path : String) : List String :=
  ((path.toList.splitOn '/').map String.ofList).filter (· != "")

/-- The parts of the place that a path names: a dot does not count, and a part that goes up takes
one away. -/
def segments (path : String) : List String :=
  (parts path).foldl
    (fun done part =>
      if part = "." then done else if part = ".." then done.dropLast else done ++ [part])
    []

def isAbsolute (path : String) : Bool := path.toList.head? == some '/'

def hasFinalSlash (path : String) : Bool := path.toList.getLast? == some '/'

/-- The paths to what a path passes through, itself included. -/
def stations (path : String) : List String :=
  let root := if isAbsolute path then "/" else ""
  (List.range (parts path).length).map fun n =>
    root ++ String.intercalate "/" ((parts path).take (n + 1))

end Honeycomb.Command.Path
