import DeadCode.Finding
import DeadCode.Framework.Kind
import DeadCode.Manifest.Dependency
import DeadCode.Usage.Barrel

/-!
# DeadCode.Analysis.Outcome

What an analysis finds out about a project, and the findings that follow from it.
-/

namespace DeadCode

/-- A source file that nothing reaches. -/
structure OrphanedFile where
  path : String
  /-- The barrel with which the file is dead, when it is judged together with one. -/
  barrel : Option String
  deriving DecidableEq

namespace OrphanedFile

/-- The file as a JSON object. -/
def toJson (o : OrphanedFile) : Json :=
  .object (("path", .string o.path) :: o.barrel.toList.map (("barrel", .string ·)))

/-- The finding about the file. -/
def finding (o : OrphanedFile) : Finding where
  category := .orphanedFile
  location := ⟨o.path, none, none⟩
  description := "File is not imported or reachable from any entry point"
  context := o.barrel.map fun barrel =>
    "barrel group " ++ barrel ++ " has no usage outside its directory"

end OrphanedFile

/-- An export that nothing uses. -/
structure UnusedExport where
  file : String
  symbol : String
  line : Option Nat
  deriving DecidableEq

namespace UnusedExport

/-- The export as a JSON object. -/
def toJson (e : UnusedExport) : Json :=
  .object ([("file", .string e.file), ("symbol", .string e.symbol)] ++
    e.line.toList.map (("line", .ofNat ·)))

/-- The finding about the export. -/
def finding (e : UnusedExport) : Finding where
  category := .unusedExport
  location := ⟨e.file, e.line, some e.symbol⟩
  description := "Export '" ++ e.symbol ++ "' is never imported"

end UnusedExport

/-- A declared dependency that nothing mentions. -/
structure UnusedDependency where
  dependency : Dependency
  manifest : String
  deriving DecidableEq

namespace UnusedDependency

/-- The dependency as a JSON object. -/
def toJson (d : UnusedDependency) : Json := .object [
  ("name", .string d.dependency.name),
  ("version", .string d.dependency.version),
  ("depType", .string d.dependency.kind.name),
  ("manifest", .string d.manifest)]

/-- The finding about the dependency. -/
def finding (d : UnusedDependency) : Finding where
  category := .unusedDependency
  location := ⟨d.manifest, none, some d.dependency.name⟩
  description := "Dependency '" ++ d.dependency.name ++ "' is declared but never used"
  context := some (d.dependency.kind.name ++ " " ++ d.dependency.version)

end UnusedDependency

/-- What an analysis finds out. -/
structure Outcome where
  /-- The use of files as languages, manifests and frameworks know it. -/
  usage : Usage
  /-- The files that count as used. -/
  usedFiles : StringSet
  /-- The frameworks whose conventions were followed. -/
  frameworks : List Framework
  /-- The files that these frameworks load without an import. -/
  frameworkEntryPoints : List EntryPoint
  orphanedFiles : List OrphanedFile
  unusedExports : List UnusedExport
  unusedDependencies : List UnusedDependency
  barrelGroups : List BarrelGroup
  /-- The files that were too large to be scanned. -/
  skippedFiles : List String

namespace Outcome

/-- How many findings there are of each category. -/
def metrics (o : Outcome) : Metrics where
  orphanedFiles := o.orphanedFiles.length
  unusedExports := o.unusedExports.length
  unusedDependencies := o.unusedDependencies.length

/-- Whether a path is reported as orphaned. -/
def isOrphaned (o : Outcome) (path : String) : Bool := o.orphanedFiles.any (·.path = path)

/-- The findings: orphaned files, then exports, then dependencies. -/
def findings (o : Outcome) : List Finding :=
  o.orphanedFiles.map (·.finding) ++ o.unusedExports.map (·.finding) ++
    o.unusedDependencies.map (·.finding)

end Outcome

end DeadCode
