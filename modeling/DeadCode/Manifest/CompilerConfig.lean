import DeadCode.Json.Decode
import DeadCode.Json.Relaxed

/-!
# DeadCode.Manifest.CompilerConfig

Configurations of the TypeScript compiler, as far as they say where imports lead: the base directory
of bare imports, path mappings, and the configurations that are inherited from.
-/

namespace DeadCode

open Text

/-- A path mapping: imports that match `pattern` lead to `targets`. A star at the end of the pattern
and of the targets stands for the rest of the import. -/
structure PathMapping where
  /-- The pattern without the star at its end. -/
  beginning : String
  /-- The targets without the stars at their ends. -/
  targets : List String
  /-- Whether the pattern ends in a star. -/
  wildcard : Bool
  deriving DecidableEq

/-- A configuration of the compiler. -/
structure CompilerConfig where
  /-- The configurations that are inherited from; later ones win. -/
  bases : List String
  baseUrl : Option String
  /-- The path mappings by pattern. Mappings of its own replace inherited ones. -/
  paths : Option (StringMap (List String))

namespace CompilerConfig

/-! ### Reading -/

/-- The parts of a configuration that are read. -/
def shape : Json.Shape :=
  .record [
    ("extends", .any),
    ("compilerOptions", .record [("baseUrl", .any), ("paths", .any)])]

/-- One configuration to inherit from, or several. -/
def bases? : Json → Option (List String)
  | .string base => some [base]
  | v => v.strings?

/-- The base directory and the path mappings. -/
def options? (json : Json) : Option (Option String × Option (StringMap (List String))) := do
  let fields ← json.fields? ["baseUrl", "paths"] false true
  return (← Json.optional? fields "baseUrl" Json.string?,
    ← Json.optional? fields "paths" (Json.map? Json.strings?))

/-- The configuration that a JSON value writes. -/
def ofJson? (json : Json) : Option CompilerConfig := do
  let fields ← json.fields? ["extends", "compilerOptions"] false true
  let bases ← Json.optional? fields "extends" bases?
  let options ← Json.optional? fields "compilerOptions" options?
  return ⟨bases.getD [], options.bind Prod.fst, options.bind Prod.snd⟩

/-- The configuration that a relaxed JSON text writes. -/
def parse (text : String) : Option CompilerConfig :=
  (Json.parseShape shape (Json.strip text)).bind ofJson?

/-! ### Path mappings -/

/-- The text without the stars at its end. -/
def dropStars (s : String) : String := .ofList (dropEndWhile (· == '*') s.toList)

/-- The path mappings, by pattern. -/
def mappings (c : CompilerConfig) : List PathMapping :=
  (c.paths.getD .empty).toList.map fun (pattern, targets) =>
    ⟨dropStars pattern, targets.map dropStars, pattern.toList.getLast? == some '*'⟩

end CompilerConfig

end DeadCode
