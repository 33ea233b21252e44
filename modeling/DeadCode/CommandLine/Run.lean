import DeadCode.Analysis.Run
import DeadCode.CommandLine.Options
import DeadCode.FileTree
import DeadCode.Report.Text

/-!
# DeadCode.CommandLine.Run

Carrying out a command line. The file system is reached only through `FileAccess`, so the same
function runs on a disk and on a tree that is held in memory (`FileTree.access`).
-/

namespace DeadCode

/-- What is asked of a file system. -/
structure FileAccess (m : Type → Type) where
  /-- The bytes of a file. -/
  readFile : String → m (Option ByteArray)
  /-- What stands at a path. -/
  readTree : String → m (Option FileTree)
  /-- The name of what stands at a path, whatever way the path takes to it. -/
  nameOf : String → m (Option String)

/-- Access to a tree in memory from the directory at `start`. -/
def FileTree.access (tree : FileTree) (start : List String) : FileAccess Id where
  readFile path :=
    match tree.find? start path with
    | some (.file bytes) => some bytes
    | _ => none
  readTree path := tree.find? start path
  nameOf path := (tree.follow? start path).bind List.getLast?

namespace CommandLine

/-- What a command leaves behind. -/
structure Result where
  exitCode : Nat
  output : String := ""
  errors : String := ""

/-- What the program says about itself. -/
def overviewText : String :=
  "reachscope - dead-code and reachability analyzer\n" ++
  "Run 'reachscope analyze' to analyze the current directory\n" ++
  "Run 'reachscope --help' for more information\n"

/-- The description of the command line. -/
def helpText : String :=
  "Dead-code and reachability analyzer for JavaScript, TypeScript and Python projects\n\n" ++
  "Usage: reachscope [COMMAND]\n\n" ++
  "Commands:\n" ++
  "  analyze  Find orphaned files, unused exports and unused dependencies\n" ++
  "  version  Show version information\n\n" ++
  "Options of analyze:\n" ++
  "  -p, --path <PATH>      Path to analyze [default: .]\n" ++
  "  -f, --format <FORMAT>  Output format: json or markdown [default: json]\n" ++
  "  -c, --config <CONFIG>  Analyzer configuration file (JSON)\n" ++
  "  -v, --verbose          Log every analysis phase\n" ++
  "  -q, --quiet            Only log errors\n"

/-- A command that failed. -/
def failure (message : String) : Result := ⟨1, "", "Error: " ++ message ++ "\n"⟩

variable {m : Type → Type} [Monad m]

/-- The configuration in a file, or the default one when no file is given. -/
def readConfig (files : FileAccess m) : Option String → m (Option Config)
  | none => return some .default
  | some path => do
    return ((← files.readFile path).bind String.fromUTF8?).bind Config.parse

/-- Carry out an analysis. -/
def runAnalyze (files : FileAccess m) (o : AnalyzeOptions) : m Result := do
  let path := o.path.getD "."
  match ← readConfig files o.config with
  | none => return failure ("Failed to load config from " ++ o.config.getD "")
  | some config =>
    match FileTree.load (← files.readTree path) with
    | .error e => return failure ("Failed to load project at " ++ path ++ ": " ++ e.message path)
    | .ok nodes =>
      let project := (← files.nameOf path).getD path
      let report := Report.ofOutcome project (analyze config nodes)
      return ⟨0, report.render (o.format.getD .json), ""⟩

/-- Carry out a command. -/
def runCommand (files : FileAccess m) : Command → m Result
  | .overview => return ⟨0, overviewText, ""⟩
  | .release => return ⟨0, "reachscope 0.1.0\n", ""⟩
  | .version => return ⟨0, "reachscope v0.1.0\n", ""⟩
  | .analyze options => runAnalyze files options

/-- Carry out a command line. One that is not understood ends with 2. -/
def run (files : FileAccess m) (args : List String) : m Result :=
  match read args with
  | .error .help => return ⟨0, helpText, ""⟩
  | .error (.misuse message) => return ⟨2, "", "error: " ++ message ++ "\n"⟩
  | .ok command => runCommand files command

end CommandLine

end DeadCode
