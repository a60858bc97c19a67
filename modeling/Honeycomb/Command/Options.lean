import Honeycomb.Command.Suggestion

/-!
# The command line

The options of the command and how arguments are read.  An option that takes a value takes the next
argument, whatever it looks like, or what follows a `=`.  `--` ends the options.  After an option
that is not known every further argument that is no option counts as not known either; the first one
is reported, unless help was asked for.
-/

set_option autoImplicit false

namespace Honeycomb.Command

/-- What the command is asked to do. -/
structure Options where
  input : Option String
  /-- The address of the service to fetch from. -/
  api : Option String
  apiKey : Option String
  width : String
  height : String
  padding : String
  output : Option String
  verbose : Bool
  json : Bool
  html : Bool
  openResult : Bool
deriving DecidableEq, Repr

def Options.default : Options :=
  { input := none, api := none, apiKey := none, width := "1200", height := "800", padding := "80",
    output := none,
    verbose := false, json := false, html := false, openResult := false }

/-- The options that take a value. -/
inductive Valued
  | api
  | apiKey
  | width
  | height
  | padding
  | output
deriving DecidableEq, Repr

/-- The options that are on or off. -/
inductive Switch
  | verbose
  | json
  | html
  | openResult
deriving DecidableEq, Repr

/-- How an option that takes a value is written. -/
def Valued.usage : Valued → String
  | .api => "--api <url>"
  | .apiKey => "--api-key <key>"
  | .width => "--width <px>"
  | .height => "--height <px>"
  | .padding => "--padding <px>"
  | .output => "-o, --output <file>"

def Valued.set (value : String) (o : Options) : Valued → Options
  | .api => { o with api := some value }
  | .apiKey => { o with apiKey := some value }
  | .width => { o with width := value }
  | .height => { o with height := value }
  | .padding => { o with padding := value }
  | .output => { o with output := some value }

def Switch.set (o : Options) : Switch → Options
  | .verbose => { o with verbose := true }
  | .json => { o with json := true }
  | .html => { o with html := true }
  | .openResult => { o with openResult := true }

/-- The option with a value that a word names. -/
def valued? : String → Option Valued
  | "--api" => some .api
  | "--api-key" => some .apiKey
  | "--width" => some .width
  | "--height" => some .height
  | "--padding" => some .padding
  | "-o" => some .output
  | "--output" => some .output
  | _ => none

def switch? : String → Option Switch
  | "--verbose" => some .verbose
  | "--json" => some .json
  | "--html" => some .html
  | "--open" => some .openResult
  | _ => none

/-- The long names of all options, without their dashes. -/
def longNames : List String :=
  ["api", "api-key", "width", "height", "padding", "output", "verbose", "json", "html", "open",
   "help"]

/-- Why a command line is refused. -/
inductive UsageError
  | missingValue (option : Valued)
  | unknownOption (argument : String)
deriving DecidableEq, Repr

def suggestionText : List String → String
  | [] => ""
  | [word] => "\n(Did you mean --" ++ word ++ "?)"
  | words => "\n(Did you mean one of " ++ String.intercalate ", " (words.map ("--" ++ ·)) ++ "?)"

/-- What a word is without two leading dashes, if it has them. -/
def afterDashes? (word : String) : Option String :=
  match word.toList with
  | '-' :: '-' :: rest => some (String.ofList rest)
  | _ => none

def UsageError.message : UsageError → String
  | .missingValue option => "error: option '" ++ option.usage ++ "' argument missing"
  | .unknownOption argument =>
    let suggestion := match afterDashes? argument with
      | none => ""
      | some word => suggestionText (Suggestion.nearest word longNames)
    "error: unknown option '" ++ argument ++ "'" ++ suggestion

/-- How far the arguments are read. -/
structure Reading where
  options : Options
  operands : List String
  unknown : List String
deriving DecidableEq, Repr

def looksLikeOption (argument : String) : Bool :=
  match argument.toList with
  | '-' :: _ :: _ => true
  | _ => false

/-- The short option with its value joined to it, such as `-ofile`. -/
def joinedShort? (argument : String) : Option (Valued × String) :=
  match argument.toList with
  | '-' :: c :: v :: rest =>
    if c = '-' then none
    else (valued? (String.ofList ['-', c])).map fun option => (option, String.ofList (v :: rest))
  | _ => none

/-- The long option with its value behind a `=`. -/
def joinedLong? (argument : String) : Option (Valued × String) :=
  let cs := argument.toList
  match cs.dropWhile (· != '=') with
  | '=' :: value =>
    (valued? (String.ofList (cs.takeWhile (· != '=')))).bind fun option =>
      if (afterDashes? argument).isSome then some (option, String.ofList value) else none
  | _ => none

namespace Reading

/-- Takes an argument that is no known option. -/
def push (r : Reading) (argument : String) : Reading :=
  if r.unknown.isEmpty && !looksLikeOption argument then
    { r with operands := r.operands ++ [argument] }
  else { r with unknown := r.unknown ++ [argument] }

def pushRest (r : Reading) (arguments : List String) : Reading :=
  if r.unknown.isEmpty then { r with operands := r.operands ++ arguments }
  else { r with unknown := r.unknown ++ "--" :: arguments }

def give (r : Reading) (option : Valued) (value : String) : Reading :=
  { r with options := option.set value r.options }

end Reading

def read : List String → Reading → Except UsageError Reading
  | [], r => .ok r
  | argument :: rest, r =>
    if argument = "--" then .ok (r.pushRest rest)
    else
      match switch? argument with
      | some option => read rest { r with options := option.set r.options }
      | none =>
        match valued? argument with
        | some option =>
          match rest with
          | [] => .error (.missingValue option)
          | value :: rest => read rest (r.give option value)
        | none =>
          match joinedShort? argument with
          | some (option, value) => read rest (r.give option value)
          | none =>
            match joinedLong? argument with
            | some (option, value) => read rest (r.give option value)
            | none => read rest (r.push argument)

/-- What a command line asks for. -/
inductive Job
  | run (options : Options)
  | help
  | refused (error : UsageError)
deriving DecidableEq, Repr

def asksForHelp (argument : String) : Bool := argument == "-h" || argument == "--help"

/-- What arguments ask for.  The key from the environment counts where none is given. -/
def parse (arguments : List String) (environmentKey : Option String) : Job :=
  match read arguments ⟨.default, [], []⟩ with
  | .error e => .refused e
  | .ok r =>
    if r.unknown.any asksForHelp then .help
    else
      match r.unknown with
      | argument :: _ => .refused (.unknownOption argument)
      | [] =>
        .run { r.options with
          input := r.operands.head?
          apiKey := r.options.apiKey.or environmentKey }

def helpText : String :=
  String.intercalate "\n"
    ["Usage: hexdeck [options] [modules]",
     "",
     "Lay out proxy modules on a hex grid",
     "",
     "Arguments:",
     "  modules              JSON file in the /api/config format",
     "",
     "Options:",
     "  --api <url>          Fetch modules from the admin API instead of a file",
     "  --api-key <key>      Admin API key sent as X-API-Key (env: HEXDECK_API_KEY)",
     "  --width <px>         Viewport width (default: \"1200\")",
     "  --height <px>        Viewport height (default: \"800\")",
     "  --padding <px>       Padding around the grid (default: \"80\")",
     "  -o, --output <file>  Write output to file (default: stdout)",
     "  --verbose            Show progress on stderr (default: false)",
     "  --json               Output the computed layout as JSON instead of SVG",
     "                       (default: false)",
     "  --html               Output a self-contained interactive HTML page (default:",
     "                       false)",
     "  --open               Write to a temp file and open it (default: false)",
     "  -h, --help           display help for command",
     ""]

end Honeycomb.Command
