import DeadCode.Analysis.Outcome
import DeadCode.Analysis.Reach

/-!
# DeadCode.Analysis.Orphan

Orphaned files: source files that do not count as used, and the members of barrel groups that
nothing outside their directory keeps alive.
-/

namespace DeadCode.Survey

/-- The source files that do not count as used. -/
def unreached (s : Survey) : List String :=
  let used := s.usedFiles
  s.project.paths.filter fun path =>
    Path.isSource path && !used.contains path && !s.usage.entryPoints.contains path &&
      !s.isSuppressed path

/-- The barrel groups of the project. -/
def barrelGroups (s : Survey) : List BarrelGroup :=
  BarrelGroup.groups s.project.config.barrelDirectories s.project.paths s.usage s.usedFiles

/-- The members of a barrel group that are dead together with their barrel. -/
def deadMembers (s : Survey) (g : BarrelGroup) : List String :=
  (g.deadMembers s.usage s.usedFiles).filter fun path =>
    !s.usage.entryPoints.contains path && !s.isSuppressed path

/-- The dead members of all barrel groups with their barrels, if they are reported. -/
def deadInGroups (s : Survey) : List (String × Option String) :=
  if s.project.config.reportBarrelGroups then
    s.barrelGroups.flatMap fun g => (s.deadMembers g).map (·, some g.barrel)
  else []

/-- The orphaned files in increasing order of their paths. A file that is dead in several groups
goes to the last of them. -/
def orphanMap (s : Survey) : StringMap (Option String) :=
  (StringMap.ofList (s.unreached.map (·, none))).insertMany s.deadInGroups

/-- The orphaned files. -/
def orphanedFiles (s : Survey) : List OrphanedFile :=
  s.orphanMap.toList.map fun (path, barrel) => ⟨path, barrel⟩

end DeadCode.Survey
