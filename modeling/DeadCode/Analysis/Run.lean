import DeadCode.Analysis.Export
import DeadCode.Report.Basic

/-!
# DeadCode.Analysis.Run

The analysis of a project from its files to its outcome.
-/

namespace DeadCode

namespace Survey

/-- The declared dependencies that nothing mentions. -/
def unusedDependencies (s : Survey) : List UnusedDependency :=
  (s.manifests.unused s.project).map fun d => ⟨d.dependency, d.manifest⟩

/-- What follows from a survey. -/
def outcome (s : Survey) : Outcome where
  usage := s.usage
  usedFiles := s.usedFiles
  frameworks := s.frameworks
  frameworkEntryPoints := s.frameworkEntryPoints
  orphanedFiles := s.orphanedFiles
  unusedExports := s.unusedExports
  unusedDependencies := s.unusedDependencies
  barrelGroups := s.barrelGroups
  skippedFiles := s.project.skipped.toList

end Survey

/-- The analysis of a project that is given by its files. -/
def analyze (config : Config) (files : List SourceNode) : Outcome :=
  (Survey.ofProject (Project.ofFiles config files)).outcome

/-- The log with the findings of one more analysis. -/
def FindingLog.analyze (log : FindingLog) (config : Config) (files : List SourceNode) :
    FindingLog :=
  let outcome := DeadCode.analyze config files
  log.add outcome.findings outcome.metrics

/-- The report of an outcome. -/
def Report.ofOutcome (project : String) (o : Outcome) : Report where
  project
  frameworks := o.frameworks
  metrics := o.metrics
  findings := o.findings
  skippedFiles := o.skippedFiles

end DeadCode
