import DeadCode.Json.Decode
import DeadCode.Manifest.Dependency
import DeadCode.Text.Space

/-!
# DeadCode.Manifest.Package

Package manifests: the entry files, scripts and dependencies that they declare.
-/

namespace DeadCode

open Text

/-- Why a text is no package manifest. -/
inductive ManifestError where
  /-- The text is no JSON, or a field has a value of the wrong kind. -/
  | invalid
  /-- The text is JSON, but no object. -/
  | notAnObject
  deriving DecidableEq

/-- The wording of the error. -/
def ManifestError.message : ManifestError → String
  | .invalid => "Failed to parse JSON"
  | .notAnObject => "Invalid package.json: top-level value is not an object"

/-- A package manifest. -/
structure Package where
  name : Option String
  version : Option String
  main : Option String
  module : Option String
  browser : Option Json
  bin : Option Json
  exports : Option Json
  scripts : Option (StringMap String)
  dependencies : Option (StringMap String)
  devDependencies : Option (StringMap String)
  peerDependencies : Option (StringMap String)
  optionalDependencies : Option (StringMap String)

namespace Package

/-! ### Reading -/

/-- A field whose value may be of any kind. -/
def anyField (fields : Json.Fields) (name : String) : Option Json :=
  match fields.lookup name with
  | some .null => none
  | v => v

/-- The manifest that the fields of a JSON object write. -/
def ofFields? (fields : Json.Fields) : Option Package := do
  let text (name : String) := Json.optional? fields name Json.string?
  let table (name : String) := Json.optional? fields name (Json.map? Json.string?)
  return {
    name := ← text "name"
    version := ← text "version"
    main := ← text "main"
    module := ← text "module"
    browser := anyField fields "browser"
    bin := anyField fields "bin"
    exports := anyField fields "exports"
    scripts := ← table "scripts"
    dependencies := ← table "dependencies"
    devDependencies := ← table "devDependencies"
    peerDependencies := ← table "peerDependencies"
    optionalDependencies := ← table "optionalDependencies" }

/-- The manifest that a text writes; wherever a field is repeated the last one counts. -/
def parse (text : String) : Except ManifestError Package :=
  match (Json.parse text).map Json.canonical with
  | some (.object fields) =>
    match ofFields? fields with
    | some package => .ok package
    | none => .error .invalid
  | some _ => .error .notAnObject
  | none => .error .invalid

/-! ### Entry files -/

mutual

/-- The strings anywhere inside a value. -/
def stringLeaves : Json → List String
  | .string s => [s]
  | .array items => leavesOfItems items
  | .object fields => leavesOfFields fields
  | _ => []
termination_by structural v => v

/-- The strings inside the items of an array. -/
def leavesOfItems : List Json → List String
  | [] => []
  | v :: vs => stringLeaves v ++ leavesOfItems vs
termination_by structural l => l

/-- The strings inside the fields of an object. -/
def leavesOfFields : List (String × Json) → List String
  | [] => []
  | (_, v) :: fields => stringLeaves v ++ leavesOfFields fields
termination_by structural l => l

end

/-- Every string in the fields that name entry files. -/
def entryFields (p : Package) : List String :=
  p.main.toList ++ p.module.toList ++ (p.browser.bind Json.string?).toList ++
    p.bin.toList.flatMap stringLeaves ++ p.exports.toList.flatMap stringLeaves

/-! ### Dependencies -/

/-- The declared dependencies, by kind and then by name. -/
def allDependencies (p : Package) : List Dependency :=
  let table (entries : Option (StringMap String)) (kind : DependencyKind) : List Dependency :=
    (entries.getD .empty).toList.map fun (name, version) => ⟨name, version, kind⟩
  table p.dependencies .production ++ table p.devDependencies .development ++
    table p.peerDependencies .peer ++ table p.optionalDependencies .optional

/-! ### Scripts -/

/-- The commands of the scripts, by the scripts' names. -/
def commands (p : Package) : List String := (p.scripts.getD .empty).toList.map Prod.snd

/-- Endings by which an argument of a command is known to be a source file. -/
def sourceEndings : List String :=
  [".js", ".mjs", ".cjs", ".jsx", ".ts", ".mts", ".cts", ".tsx", ".py"]

/-- Whether a word of a command looks like a file: it has the ending of one or contains a slash, and
is no option, address, pattern or assignment, nor the name of a scoped package. -/
def looksLikeFile (word : List Char) : Bool :=
  !word.isEmpty && word.head? != some '-' && !occursIn "://".toList word && !word.contains '*' &&
    !word.contains '=' &&
    (sourceEndings.any (fun e => endsWith e.toList word) ||
      (word.contains '/' && word.head? != some '@'))

/-- The words of a command that look like files. -/
def fileWords (command : String) : List String :=
  let isDivider (c : Char) : Bool := isSpace c || c == ';' || c == '&' || c == '|'
  let words := (splitWhere isDivider command.toList).map
    (trimWhile fun c => c == '"' || c == '\'')
  (words.filter looksLikeFile).map String.ofList

end Package

end DeadCode
