import DeadCode.Finding
import DeadCode.Framework.Kind
import DeadCode.Json.Writer

/-!
# DeadCode.Report.Basic

The report of an analysis, and its JSON form.
-/

namespace DeadCode

/-- What is reported about a project. -/
structure Report where
  project : String
  /-- The frameworks whose conventions were followed. -/
  frameworks : List Framework
  metrics : Metrics
  findings : List Finding
  /-- The files that were too large to be scanned. -/
  skippedFiles : List String
  deriving DecidableEq

namespace Report

/-- The findings of a category. -/
def findingsIn (r : Report) (category : FindingCategory) : List Finding :=
  r.findings.filter (·.category = category)

/-- The report as a JSON value. The list of skipped files is left out when it is empty. -/
def toJson (r : Report) : Json :=
  .object <| [
    ("project", .string r.project),
    ("frameworks", .ofStrings (r.frameworks.map Framework.name)),
    ("summary", .object (r.metrics.fields ++ [
      ("total_findings", .ofNat r.findings.length),
      ("skipped_files", .ofNat r.skippedFiles.length)])),
    ("findings", .array (r.findings.map Finding.toJson))] ++
    if r.skippedFiles.isEmpty then [] else [("skipped_files", .ofStrings r.skippedFiles)]

/-- The report as a JSON text. -/
def toJsonText (r : Report) : String := r.toJson.pretty ++ "\n"

end Report

end DeadCode
