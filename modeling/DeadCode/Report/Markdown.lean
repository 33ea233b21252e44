import DeadCode.Report.Basic

/-!
# DeadCode.Report.Markdown

Reports in Markdown: a summary and one table for each category that has findings.
-/

namespace DeadCode.Report

/-- A text in a cell of a table, with a backslash before every bar. -/
def escapeBars (text : String) : String :=
  .ofList (text.toList.flatMap fun c => if c = '|' then ['\\', '|'] else [c])

/-- The last cell of a finding. -/
def details (f : Finding) : String :=
  match f.context with
  | some context => f.description ++ " (" ++ context ++ ")"
  | none => f.description

/-- The row of a finding. -/
def row (f : Finding) : String :=
  "| `" ++ f.location.describe ++ "` | " ++ f.severity.name ++ " | " ++
    escapeBars (details f) ++ " |"

/-- The lines above the summary. -/
def heading (r : Report) : List String :=
  ["# Dead Code Report", "", "**Project:** " ++ r.project] ++
    (if r.frameworks.isEmpty then []
      else ["**Frameworks:** " ++ ", ".intercalate (r.frameworks.map Framework.name)]) ++
    [""]

/-- The lines of the summary. -/
def summary (r : Report) : List String :=
  ["## Summary", "", "| Metric | Count |", "|--------|-------|",
    "| Orphaned Files | " ++ toString r.metrics.orphanedFiles ++ " |",
    "| Unused Exports | " ++ toString r.metrics.unusedExports ++ " |",
    "| Unused Dependencies | " ++ toString r.metrics.unusedDependencies ++ " |"] ++
    (if r.skippedFiles.isEmpty then []
      else ["| Skipped (too large) | " ++ toString r.skippedFiles.length ++ " |"]) ++
    [""]

/-- The lines of a category; one without findings has none. -/
def table (r : Report) (category : FindingCategory) : List String :=
  let findings := r.findingsIn category
  if findings.isEmpty then []
  else
    ["## " ++ category.label ++ " (" ++ toString findings.length ++ ")", "",
      "| Location | Severity | Details |", "|----------|----------|---------|"] ++
      findings.map row ++ [""]

/-- The lines of a report. -/
def markdownLines (r : Report) : List String :=
  r.heading ++ r.summary ++
    (if r.findings.isEmpty then ["No dead code found.", ""] else []) ++
    FindingCategory.all.flatMap r.table ++ ["---", "*Generated by reachscope*"]

/-- The report as a Markdown text. -/
def toMarkdown (r : Report) : String := .join (r.markdownLines.map (· ++ "\n"))

end DeadCode.Report
