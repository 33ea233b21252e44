import DeadCode.Framework.Convention
import DeadCode.Graph.Basic
import DeadCode.Language.Basic
import DeadCode.Project.Manifests

/-!
# DeadCode.Analysis.Reach

Which files of a project are used. The knowledge of the languages, the manifests and the frameworks
is put together (`Survey.ofProject`); the reachability of the configuration then says which files
count as used (`Survey.usedFiles`).
-/

namespace DeadCode

/-- A project with all that is known about the use of its files. -/
structure Survey where
  project : Project
  manifests : Manifests
  /-- The frameworks whose conventions hold. -/
  frameworks : List Framework
  /-- The files that these frameworks load without an import. -/
  frameworkEntryPoints : List EntryPoint
  /-- The files that these frameworks show to be used. -/
  frameworkUsed : StringSet
  usage : Usage
  graph : ImportGraph

namespace Survey

/-- The use of files as every source of knowledge has it: the languages, then the entry points of
manifests and frameworks, then the files that frameworks show to be used. -/
def usageOf (p : Project) (manifestEntries : List String) (frameworkEntries : List EntryPoint)
    (frameworkUsed : StringSet) : Usage :=
  let known := Language.all.foldl (fun u l => u.merge (l.usage p)) Usage.empty
  let known := manifestEntries.foldl Usage.addEntryPoint known
  let known := (frameworkEntries.map (·.path)).foldl Usage.addEntryPoint known
  frameworkUsed.toList.foldl Usage.markUsed known

/-- The survey of a project. -/
def ofProject (p : Project) : Survey :=
  let manifests := Manifests.ofProject p
  let frameworks := Framework.select manifests.frameworks p
  let frameworkEntryPoints := frameworks.flatMap (·.entryPoints p)
  let frameworkUsed := frameworks.foldl (fun used f => used ∪ f.usedFiles p) StringSet.empty
  let usage := usageOf p manifests.entryPoints.toList frameworkEntryPoints frameworkUsed
  { project := p, manifests, frameworks, frameworkEntryPoints, frameworkUsed, usage
    graph := .ofUsage p.paths usage }

/-- The files that count as used. Entry points always do. -/
def usedFiles (s : Survey) : StringSet :=
  (match s.project.config.reachability with
    | .referenced => s.usage.usedFiles
    | .transitive => s.graph.reachable (s.usage.entryPoints.toList ++ s.frameworkUsed.toList)) ∪
    s.usage.entryPoints

/-- Whether a file is never reported: it belongs to a tool, or the configuration excludes it. -/
def isSuppressed (s : Survey) (path : String) : Bool :=
  Path.isTooling (s.project.relative path) || s.project.config.excludes path

end Survey

end DeadCode
