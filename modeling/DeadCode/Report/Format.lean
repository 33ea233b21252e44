/-!
# DeadCode.Report.Format

The formats in which a report is written.
-/

namespace DeadCode

/-- The format of a report. -/
inductive ReportFormat where
  | json
  | markdown
  deriving DecidableEq, Inhabited

namespace ReportFormat

/-- The name of a format. -/
def name : ReportFormat → String
  | .json => "json"
  | .markdown => "markdown"

/-- A letter in lower case, as far as the names of formats are concerned: the letters of ASCII, and
the Kelvin sign, whose lower case is `k`. -/
def lower (c : Char) : Char := if c = '\u212a' then 'k' else c.toLower

/-- The format of that name, in upper or lower case. -/
def ofName? (s : String) : Option ReportFormat :=
  let lowered := String.ofList (s.toList.map lower)
  if lowered = "json" then some .json
  else if lowered = "markdown" ∨ lowered = "md" then some .markdown
  else none

/-- Why a name is refused. -/
def unknown (s : String) : String :=
  "Unknown export format: '" ++ s ++ "'. Valid formats: json, markdown"

end ReportFormat

end DeadCode
