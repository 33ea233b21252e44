import DeadCode.Json.Decode
import DeadCode.Text.Basic

/-!
# DeadCode.Config

The configuration of an analysis. Every field has a default, so `{}` is a configuration, and a field
that no configuration has is refused (`Config.parse`).
-/

namespace DeadCode

/-- Which files count as used. -/
inductive Reachability where
  /-- Every file that some import resolves to. -/
  | referenced
  /-- Every file that a chain of imports reaches from an entry point. -/
  | transitive
  deriving DecidableEq, Inhabited

namespace Reachability

/-- The name in a configuration. -/
def name : Reachability → String
  | referenced => "referenced"
  | transitive => "transitive"

/-- The mode of that name. -/
def ofName? (s : String) : Option Reachability :=
  [referenced, transitive].find? (·.name == s)

end Reachability

/-- The configuration of an analysis. -/
structure Config where
  /-- Larger files are not scanned. -/
  maxFileBytes : Nat
  /-- Files with more lines are not scanned. -/
  maxFileLines : Nat
  /-- Path fragments under which `index.*` files are barrels. -/
  barrelDirectories : List String
  /-- Import beginnings and the directories that they stand for. -/
  pathAliases : StringMap (List String)
  reachability : Reachability
  /-- Path fragments; a path that contains one is never reported. -/
  exclude : List String
  reportBarrelGroups : Bool
  deriving DecidableEq

namespace Config

/-- The configuration that is taken when there is none. -/
def default : Config where
  maxFileBytes := 1024 * 1024
  maxFileLines := 15000
  barrelDirectories := ["components/ui/", "components/"]
  pathAliases := .ofList [
    ("@/", ["src/", ""]), ("~/", ["src/", ""]), ("~~/", [""]), ("@@/", [""]),
    ("$lib/", ["src/lib/"])]
  reachability := .referenced
  exclude := []
  reportBarrelGroups := true

instance : Inhabited Config := ⟨default⟩

/-- Whether the configuration excludes `path` from being reported. -/
def excludes (config : Config) (path : String) : Bool :=
  config.exclude.any fun fragment => Text.occursIn fragment.toList path.toList

/-! ### JSON -/

/-- The names of the fields, in their order. -/
def fieldNames : List String := [
  "maxFileBytes", "maxFileLines", "barrelDirectories", "pathAliases", "reachability", "exclude",
  "reportBarrelGroups"
]

/-- The configuration as a JSON object. -/
def toJson (config : Config) : Json := .object [
  ("maxFileBytes", .ofNat config.maxFileBytes),
  ("maxFileLines", .ofNat config.maxFileLines),
  ("barrelDirectories", .ofStrings config.barrelDirectories),
  ("pathAliases", .ofMap .ofStrings config.pathAliases),
  ("reachability", .string config.reachability.name),
  ("exclude", .ofStrings config.exclude),
  ("reportBarrelGroups", .bool config.reportBarrelGroups)]

/-- The configuration that a JSON value writes; fields that are not there take their default. -/
def ofJson? (json : Json) : Option Config := do
  let fields ← json.fields? fieldNames true false
  return {
    maxFileBytes := ← Json.default? fields "maxFileBytes" default.maxFileBytes Json.count?
    maxFileLines := ← Json.default? fields "maxFileLines" default.maxFileLines Json.count?
    barrelDirectories :=
      ← Json.default? fields "barrelDirectories" default.barrelDirectories Json.strings?
    pathAliases :=
      ← Json.default? fields "pathAliases" default.pathAliases (Json.map? Json.strings?)
    reachability := ← Json.default? fields "reachability" default.reachability fun v =>
      v.choice?.bind Reachability.ofName?
    exclude := ← Json.default? fields "exclude" default.exclude Json.strings?
    reportBarrelGroups := ← Json.default? fields "reportBarrelGroups" default.reportBarrelGroups
      Json.bool? }

/-- The configuration that a text writes. -/
def parse (text : String) : Option Config := (Json.parse text).bind ofJson?

end Config

end DeadCode
