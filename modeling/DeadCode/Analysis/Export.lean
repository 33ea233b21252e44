import DeadCode.Analysis.Orphan

/-!
# DeadCode.Analysis.Export

Unused exports. The check is generous: an export is used as soon as its name stands in the text of a
file that may import it, whether as an import or not.
-/

namespace DeadCode.Survey

open Text

/-- The texts of the files that may import from `path`. -/
def importerTexts (s : Survey) (path : String) : List (List Char) :=
  (s.graph.importersThrough path).toList.filterMap fun importer =>
    (s.project.content? importer).map String.toList

/-- Whether an import of `path` asks for `symbol` by name. -/
def isImported (s : Survey) (path symbol : String) : Bool :=
  s.usage.edges.any fun e => e.target = path && e.names.contains symbol

/-- Whether an export of `path` is used. The default export is used as soon as the file is imported;
another one when it is imported by name, stands more than once in its own file, or stands in the
text of a file that may import it. -/
def isExportUsed (s : Survey) (path : String) (own : List Char) (importers : List (List Char))
    (symbol : String) : Bool :=
  if symbol = "default" then !(s.graph.importers path).isEmpty
  else
    s.isImported path symbol || copies symbol.toList own > 1 ||
      importers.any (occursIn symbol.toList)

/-- The unused exports of a file. -/
def unusedExportsOf (s : Survey) (path : String) (symbols : List String) : List UnusedExport :=
  let own := ((s.project.content? path).getD "").toList
  let importers := s.importerTexts path
  (symbols.filter fun symbol => !s.isExportUsed path own importers symbol).map fun symbol =>
    ⟨path, symbol, (s.project.module? path).bind (·.exportLine? symbol)⟩

/-- The unused exports of all files that are neither entry points nor orphaned nor suppressed. -/
def unusedExports (s : Survey) : List UnusedExport :=
  let orphans := s.orphanMap
  s.usage.exports.toList.flatMap fun (path, symbols) =>
    if s.usage.entryPoints.contains path || orphans.contains path || s.isSuppressed path then []
    else s.unusedExportsOf path symbols

end DeadCode.Survey
