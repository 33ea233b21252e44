import DeadCode.Report.Format
import DeadCode.Text.Basic

/-!
# DeadCode.CommandLine.Options

The command line as it is written. An option is written `--name value`, `--name=value`, `-n value`,
`-nvalue` or `-n=value`; several options of one letter may share a dash, and only the last of them
may have a value. A value that follows as an argument of its own must not look like an option. No
option may be given twice.
-/

namespace DeadCode.CommandLine

open Text

/-- An option that has a value. -/
inductive Setting where
  | path
  | format
  | config
  deriving DecidableEq

/-- An option without a value. -/
inductive Switch where
  | verbose
  | quiet
  deriving DecidableEq

/-- An option of the analysis. -/
inductive AnalyzeOption where
  | setting (s : Setting)
  | switch (s : Switch)
  | help

/-- Why a command line is not carried out. -/
inductive Stop where
  /-- It asks for the description of a command. -/
  | help
  /-- It is not understood. -/
  | misuse (message : String)

/-- What the options of the analysis say. -/
structure AnalyzeOptions where
  path : Option String := none
  format : Option ReportFormat := none
  config : Option String := none
  verbose : Bool := false
  quiet : Bool := false

/-- A command. -/
inductive Command where
  /-- Say what the program is. -/
  | overview
  /-- Write the name and the release in one line. -/
  | release
  /-- Write the version. -/
  | version
  /-- Analyse a project. -/
  | analyze (options : AnalyzeOptions)

/-! ### Options -/

/-- The option of a long name. -/
def AnalyzeOption.ofLong? : String → Option AnalyzeOption
  | "path" => some (.setting .path)
  | "format" => some (.setting .format)
  | "config" => some (.setting .config)
  | "verbose" => some (.switch .verbose)
  | "quiet" => some (.switch .quiet)
  | "help" => some .help
  | _ => none

/-- The option of a letter. -/
def AnalyzeOption.ofShort? : Char → Option AnalyzeOption
  | 'p' => some (.setting .path)
  | 'f' => some (.setting .format)
  | 'c' => some (.setting .config)
  | 'v' => some (.switch .verbose)
  | 'q' => some (.switch .quiet)
  | 'h' => some .help
  | _ => none

/-- The name of a setting. -/
def Setting.name : Setting → String
  | .path => "--path"
  | .format => "--format"
  | .config => "--config"

/-- The name of a switch. -/
def Switch.name : Switch → String
  | .verbose => "--verbose"
  | .quiet => "--quiet"

/-- An option that is given twice. -/
def repeated (name : String) : Stop :=
  .misuse ("the argument '" ++ name ++ "' cannot be used multiple times")

/-- An option whose value is missing. -/
def valueMissing (s : Setting) : Stop :=
  .misuse ("a value is required for '" ++ s.name ++ "' but none was supplied")

/-- An argument that no command has. -/
def unexpected (arg : String) : Stop := .misuse ("unexpected argument '" ++ arg ++ "' found")

/-- A value of a path, which must not be empty. -/
def pathValue (s : Setting) (value : String) : Except Stop String :=
  if value.isEmpty then .error (valueMissing s) else .ok value

/-- The options with a setting given. -/
def AnalyzeOptions.set (o : AnalyzeOptions) (s : Setting) (value : String) :
    Except Stop AnalyzeOptions :=
  match s with
  | .path =>
    if o.path.isSome then .error (repeated s.name)
    else do return { o with path := some (← pathValue s value) }
  | .config =>
    if o.config.isSome then .error (repeated s.name)
    else do return { o with config := some (← pathValue s value) }
  | .format =>
    if o.format.isSome then .error (repeated s.name)
    else
      match ReportFormat.ofName? value with
      | some format => .ok { o with format := some format }
      | none => .error (.misuse (ReportFormat.unknown value))

/-- The options with a switch given. -/
def AnalyzeOptions.turnOn (o : AnalyzeOptions) (s : Switch) : Except Stop AnalyzeOptions :=
  match s with
  | .verbose =>
    if o.verbose then .error (repeated s.name) else .ok { o with verbose := true }
  | .quiet => if o.quiet then .error (repeated s.name) else .ok { o with quiet := true }

/-- The end of the command line: no log can be both detailed and silent. -/
def AnalyzeOptions.finish (o : AnalyzeOptions) : Except Stop AnalyzeOptions :=
  if o.verbose && o.quiet then
    .error (.misuse "the argument '--verbose' cannot be used with '--quiet'")
  else .ok o

/-! ### Arguments -/

/-- Whether an argument looks like an option. A dash alone does not. -/
def looksLikeOption (arg : String) : Bool := startsWith ['-'] arg.toList && arg != "-"

/-- The name of a long option and the value behind its equals sign. -/
def long? (arg : String) : Option (String × Option String) :=
  (dropPrefix? ['-', '-'] arg.toList).map fun rest =>
    match cutFirst '=' rest with
    | some (name, value) => (.ofList name, some (.ofList value))
    | none => (.ofList rest, none)

/-- Options of one letter behind one dash. A setting at their end still waits for its value. -/
def readLetters (arg : String) :
    List Char → AnalyzeOptions → Except Stop (AnalyzeOptions × Option Setting)
  | [], o => .ok (o, none)
  | c :: cs, o =>
    match AnalyzeOption.ofShort? c with
    | none => .error (unexpected arg)
    | some .help => .error .help
    | some (.switch s) => do readLetters arg cs (← o.turnOn s)
    | some (.setting s) =>
      match cs with
      | [] => .ok (o, some s)
      | '=' :: value => do return (← o.set s (.ofList value), none)
      | value => do return (← o.set s (.ofList value), none)

/-- One argument. A setting without its value still waits for it. -/
def readArgument (arg : String) (o : AnalyzeOptions) :
    Except Stop (AnalyzeOptions × Option Setting) :=
  match long? arg with
  | some (name, attached) =>
    match AnalyzeOption.ofLong? name, attached with
    | some (.setting s), some value => do return (← o.set s value, none)
    | some (.setting s), none => .ok (o, some s)
    | some (.switch s), none => do return (← o.turnOn s, none)
    | some .help, none => .error .help
    | _, _ => .error (unexpected arg)
  | none =>
    if looksLikeOption arg then readLetters arg (arg.toList.drop 1) o
    else .error (unexpected arg)

/-- The options of the analysis, given those that have been read. Two dashes end the options;
nothing may follow them. -/
def readOptions (o : AnalyzeOptions) : List String → Except Stop AnalyzeOptions
  | [] => o.finish
  | arg :: rest =>
    if arg = "--" then
      match rest with
      | [] => o.finish
      | next :: _ => .error (unexpected next)
    else do
      match ← readArgument arg o with
      | (o, none) => readOptions o rest
      | (o, some s) =>
        match rest with
        | [] => .error (valueMissing s)
        | value :: rest =>
          if looksLikeOption value then .error (valueMissing s)
          else readOptions (← o.set s value) rest

/-! ### Commands -/

/-- Nothing but the end of the options may follow a command without arguments. -/
def readNothing (c : Command) : List String → Except Stop Command
  | [] => .ok c
  | arg :: rest =>
    if arg = "--" then
      match rest with
      | [] => .ok c
      | next :: _ => .error (unexpected next)
    else if arg = "--help" || startsWith ['-', 'h'] arg.toList then .error .help
    else .error (unexpected arg)

/-- A question for the description of the program or of one of its commands. -/
def readHelp : List String → Stop
  | [] => .help
  | [name] => if ["analyze", "version", "help"].contains name then .help else unexpected name
  | _ :: extra :: _ => unexpected extra

/-- The command that a command line writes. -/
def read : List String → Except Stop Command
  | [] => .ok .overview
  | arg :: rest =>
    if arg = "analyze" then do return .analyze (← readOptions {} rest)
    else if arg = "version" then readNothing .version rest
    else if arg = "--version" || startsWith ['-', 'V'] arg.toList then .ok .release
    else if arg = "help" then .error (readHelp rest)
    else readNothing .overview (arg :: rest)

end DeadCode.CommandLine
