import DeadCode.Json.Value

/-!
# DeadCode.Finding

Findings: what is reported, where it is, and how it is described.
-/

namespace DeadCode

/-- How much a finding matters. -/
inductive Severity where
  | info
  | warning
  deriving DecidableEq, Inhabited

/-- The name of a severity. -/
def Severity.name : Severity → String
  | .info => "info"
  | .warning => "warning"

/-- What a finding is about. -/
inductive FindingCategory where
  | orphanedFile
  | unusedExport
  | unusedDependency
  deriving DecidableEq, Inhabited

namespace FindingCategory

/-- Every category, in the order of a report. -/
def all : List FindingCategory := [.orphanedFile, .unusedExport, .unusedDependency]

/-- The name of a category. -/
def name : FindingCategory → String
  | .orphanedFile => "orphaned_file"
  | .unusedExport => "unused_export"
  | .unusedDependency => "unused_dependency"

/-- The category of that name. -/
def ofName? (s : String) : Option FindingCategory := all.find? (·.name == s)

/-- The heading of a category. -/
def label : FindingCategory → String
  | .orphanedFile => "Orphaned files"
  | .unusedExport => "Unused exports"
  | .unusedDependency => "Unused dependencies"

/-- How much the findings of a category matter. -/
def severity : FindingCategory → Severity
  | .orphanedFile => .warning
  | .unusedExport => .info
  | .unusedDependency => .warning

end FindingCategory

/-- Where a finding points. -/
structure Location where
  file : String
  line : Option Nat := none
  symbol : Option String := none
  deriving DecidableEq

namespace Location

/-- The location in one line: `file:line (symbol)`. -/
def describe (l : Location) : String :=
  let line := match l.line with
    | some n => ":" ++ toString n
    | none => ""
  let symbol := match l.symbol with
    | some s => " (" ++ s ++ ")"
    | none => ""
  l.file ++ line ++ symbol

/-- The location as a JSON object; what is not known is left out. -/
def toJson (l : Location) : Json :=
  .object <| ("file", .string l.file) ::
    (l.line.toList.map (("line", .ofNat ·)) ++ l.symbol.toList.map (("symbol", .string ·)))

end Location

/-- Something that can be removed. -/
structure Finding where
  /-- The analysis that made the finding. -/
  type : String := "deadcode"
  category : FindingCategory
  severity : Severity := category.severity
  location : Location
  description : String
  context : Option String := none
  deriving DecidableEq

namespace Finding

/-- The finding as a JSON object; what is not known is left out. -/
def toJson (f : Finding) : Json :=
  .object <| [
    ("type", .string f.type),
    ("category", .string f.category.name),
    ("severity", .string f.severity.name),
    ("location", f.location.toJson),
    ("description", .string f.description)] ++
    f.context.toList.map (("context", .string ·))

end Finding

/-- How many findings there are in each category. -/
structure Metrics where
  orphanedFiles : Nat := 0
  unusedExports : Nat := 0
  unusedDependencies : Nat := 0
  deriving DecidableEq

namespace Metrics

/-- The number of findings. -/
def total (m : Metrics) : Nat := m.orphanedFiles + m.unusedExports + m.unusedDependencies

/-- The counts with their names. -/
def entries (m : Metrics) : List (String × Nat) := [
  ("orphanedFiles", m.orphanedFiles),
  ("unusedExports", m.unusedExports),
  ("unusedDependencies", m.unusedDependencies)]

/-- The counts as the fields of a JSON object. -/
def fields (m : Metrics) : List (String × Json) := m.entries.map fun (name, n) => (name, .ofNat n)

/-- The counts as a JSON object. -/
def toJson (m : Metrics) : Json := .object m.fields

end Metrics

/-! ### Logs -/

/-- The findings of several analyses in the order in which they were made, and the counts of the
last one. -/
structure FindingLog where
  findings : List Finding
  metrics : StringMap Nat

namespace FindingLog

/-- The log without findings. -/
def empty : FindingLog := ⟨[], .empty⟩

instance : Inhabited FindingLog := ⟨empty⟩

/-- The log with the findings and counts of one more analysis. -/
def add (log : FindingLog) (findings : List Finding) (metrics : Metrics) : FindingLog :=
  ⟨log.findings ++ findings, log.metrics.insertMany metrics.entries⟩

/-- The findings of a category. -/
def findingsIn (log : FindingLog) (category : FindingCategory) : List Finding :=
  log.findings.filter (·.category = category)

/-- The log as a JSON object. -/
def toJson (log : FindingLog) : Json := .object [
  ("findings", .array (log.findings.map Finding.toJson)),
  ("metrics", .ofMap .ofNat log.metrics)]

end FindingLog

end DeadCode
