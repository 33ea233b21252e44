import DeadCode.Report.Format
import DeadCode.Report.Markdown

/-!
# DeadCode.Report.Text

Reports as texts.
-/

namespace DeadCode.Report

/-- The text of a report in a format. -/
def render (r : Report) : ReportFormat → String
  | .json => r.toJsonText
  | .markdown => r.toMarkdown

end DeadCode.Report
