import DeadCode.Ordered.Arrival
import DeadCode.Ordered.StringMap
import DeadCode.Usage.Edge

/-!
# DeadCode.Usage.Basic

What is known about the use of files: which ones are used, which ones a run of the program may start
from, what they export, and which imports lead from one file to another. Every language contributes
a `Usage` of its own; `Usage.merge` puts them together.
-/

namespace DeadCode

/-- The use of files. The operations below keep the entry points among the used files, and keep
`importMap` in step with `edges`. -/
structure Usage where
  usedFiles : StringSet
  entryPoints : StringSet
  /-- The files that a file imports, in the order of its first import of each. -/
  importMap : StringMap (List String)
  /-- The names that a file exports. -/
  exports : StringMap (List String)
  /-- The imports without repetitions, in the order in which they were found. -/
  edges : List ImportEdge
  deriving DecidableEq

namespace Usage

/-- Nothing is known. -/
def empty : Usage := ⟨.empty, .empty, .empty, .empty, []⟩

instance : Inhabited Usage := ⟨empty⟩

/-- A file that a run may start from; it is used. -/
def addEntryPoint (u : Usage) (path : String) : Usage :=
  { u with usedFiles := u.usedFiles.insert path, entryPoints := u.entryPoints.insert path }

/-- A file that is used. -/
def markUsed (u : Usage) (path : String) : Usage :=
  { u with usedFiles := u.usedFiles.insert path }

/-- Add targets to the imports of a file. -/
def addTargets (imports : StringMap (List String)) (source : String) (targets : List String) :
    StringMap (List String) :=
  imports.alter source fun known => Arrival.addAll (known.getD []) targets

/-- An import; its target is used. -/
def addEdge (u : Usage) (edge : ImportEdge) : Usage :=
  { u with
    importMap := addTargets u.importMap edge.source [edge.target]
    usedFiles := u.usedFiles.insert edge.target
    edges := Arrival.add u.edges edge }

/-- The exports of a file, in place of those known before. A file without any is not recorded. -/
def setExports (u : Usage) (path : String) (symbols : List String) : Usage :=
  if symbols.isEmpty then u else { u with exports := u.exports.insert path symbols }

/-- What is known from `u` and from `v`. For the exports of a file `v` counts. -/
def merge (u v : Usage) : Usage where
  usedFiles := (u.usedFiles ∪ v.usedFiles) ∪ v.entryPoints
  entryPoints := u.entryPoints ∪ v.entryPoints
  importMap := v.importMap.toList.foldl (fun m e => addTargets m e.1 e.2) u.importMap
  exports := u.exports.insertMany v.exports.toList
  edges := Arrival.addAll u.edges v.edges

end Usage

end DeadCode
