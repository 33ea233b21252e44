import DeadCode.Proofs.Orphans

/-!
# DeadCode.Proofs.UnusedExports

Which exports are reported as unused. The report is a filter over the exports that the languages
recorded; the lemmas take it apart condition by condition, down to the edges of the usage and the
texts of the files. The search through re-exporting files becomes a chain of re-exports
(`Project.IsMentionedByImporter`), and the last theorem puts the conditions together.
-/

namespace DeadCode

open Relation

/-- A file other than `path`, with a text in which `symbol` stands, imports `path` or a file from
which a chain of re-exports leads there. -/
def Project.IsMentionedByImporter (p : Project) (u : Usage) (path symbol : String) : Prop :=
  ∃ importer text, importer ≠ path ∧ p.content? importer = some text ∧
    symbol.toList <:+: text.toList ∧
    ∃ imported, u.Imports importer imported ∧ ReflTransGen u.ReExports imported path

namespace Survey

variable {s : Survey} {p : Project} {path symbol : String}

/-! ### The report as a filter -/

theorem mem_unusedExportsOf {symbols : List String} {e : UnusedExport} :
    e ∈ s.unusedExportsOf path symbols ↔ e.symbol ∈ symbols ∧
      s.isExportUsed path ((s.project.content? path).getD "").toList (s.importerTexts path)
        e.symbol = false ∧
      e.file = path ∧ e.line = (s.project.module? path).bind (·.exportLine? e.symbol) := by
  simp only [unusedExportsOf, List.mem_map, List.mem_filter, Bool.not_eq_true']
  constructor
  · intro h
    obtain ⟨name, ⟨hname, hunused⟩, rfl⟩ := h
    exact ⟨hname, hunused, rfl, rfl⟩
  · intro h
    obtain ⟨hname, hunused, rfl, hline⟩ := h
    exact ⟨e.symbol, ⟨hname, hunused⟩, by rw [← hline]⟩

/-- A file is passed over as a whole, or its exports are judged one by one. -/
theorem mem_unusedExports {e : UnusedExport} :
    e ∈ s.unusedExports ↔ ∃ symbols, s.usage.exports.find? e.file = some symbols ∧
      e.file ∉ s.usage.entryPoints ∧ e.file ∉ s.orphanMap.keys ∧ s.isSuppressed e.file = false ∧
      e ∈ s.unusedExportsOf e.file symbols := by
  simp only [unusedExports, List.mem_flatMap]
  constructor
  · intro h
    obtain ⟨⟨file, symbols⟩, hentry, he⟩ := h
    split at he
    · cases he
    · next hskip =>
      simp only [Bool.or_eq_true, not_or, StringSet.contains_iff, StringMap.contains_iff_mem_keys,
        Bool.not_eq_true] at hskip
      -- an export names the file under which it was recorded
      obtain ⟨-, -, rfl, -⟩ := mem_unusedExportsOf.1 he
      exact ⟨symbols, StringMap.mem_toList.1 hentry, hskip.1.1, hskip.1.2, hskip.2, he⟩
  · intro h
    obtain ⟨symbols, hexports, hentry, horphan, hsuppressed, he⟩ := h
    refine ⟨(e.file, symbols), StringMap.mem_toList.2 hexports, ?_⟩
    have hskip : ¬ ((s.usage.entryPoints.contains e.file || s.orphanMap.contains e.file ||
        s.isSuppressed e.file) = true) := by
      simp only [Bool.or_eq_true, not_or, StringSet.contains_iff, StringMap.contains_iff_mem_keys,
        Bool.not_eq_true]
      exact ⟨⟨hentry, horphan⟩, hsuppressed⟩
    rw [if_neg hskip]
    exact he

/-! ### Exports that are used -/

theorem isImported_eq_false_iff :
    s.isImported path symbol = false ↔ ∀ e ∈ s.usage.edges, e.target = path → symbol ∉ e.names := by
  simp only [isImported, List.any_eq_false, Bool.and_eq_true, decide_eq_true_eq,
    List.contains_iff_mem, not_and]

theorem mem_importerTexts {text : List Char} :
    text ∈ s.importerTexts path ↔ ∃ importer content, importer ∈ s.graph.importersThrough path ∧
      s.project.content? importer = some content ∧ content.toList = text := by
  simp only [importerTexts, List.mem_filterMap, Option.map_eq_some_iff, ← StringSet.mem_iff]
  constructor
  · intro h
    obtain ⟨importer, himporter, content, hcontent, htext⟩ := h
    exact ⟨importer, content, himporter, hcontent, htext⟩
  · intro h
    obtain ⟨importer, content, himporter, hcontent, htext⟩ := h
    exact ⟨importer, himporter, content, hcontent, htext⟩

theorem imports_graph : (ofProject p).graph.Imports = (ofProject p).usage.Imports := by
  rw [graph_ofProject, ImportGraph.imports_ofUsage]

/-- A default export is unused when no file imports its module. -/
theorem isDefaultUsed_eq_false_iff :
    (!((ofProject p).graph.importers path).isEmpty) = false ↔
      ∀ e ∈ (ofProject p).usage.edges, e.target ≠ path := by
  rw [Bool.not_eq_false', List.isEmpty_iff, ImportGraph.importers_eq_nil_iff, imports_graph]
  constructor
  · intro h e he htarget
    exact h e.source ⟨e, he, rfl, htarget⟩
  · intro h source himport
    obtain ⟨e, he, -, htarget⟩ := himport
    exact h e he htarget

/-- The backward search over re-exports, said as a chain of re-exports. -/
theorem any_importerTexts_iff :
    ((ofProject p).importerTexts path).any (Text.occursIn symbol.toList) = true ↔
      p.IsMentionedByImporter (ofProject p).usage path symbol := by
  have hreExports : (ofProject p).graph.ReExports = (ofProject p).usage.ReExports := by
    rw [graph_ofProject, ImportGraph.reExports_ofUsage]
  simp only [List.any_eq_true, mem_importerTexts, ImportGraph.mem_importersThrough_iff,
    imports_graph, hreExports, Text.occursIn_iff, project_ofProject]
  constructor
  · intro h
    obtain ⟨_, ⟨importer, content, ⟨hne, hchain⟩, hcontent, rfl⟩, hoccurs⟩ := h
    exact ⟨importer, content, hne, hcontent, hoccurs, hchain⟩
  · intro h
    obtain ⟨importer, content, hne, hcontent, hoccurs, hchain⟩ := h
    exact ⟨content.toList, ⟨importer, content, ⟨hne, hchain⟩, hcontent, rfl⟩, hoccurs⟩

theorem isExportUsed_eq_false_iff {own : List Char} :
    (ofProject p).isExportUsed path own ((ofProject p).importerTexts path) symbol = false ↔
      if symbol = "default" then ∀ e ∈ (ofProject p).usage.edges, e.target ≠ path
      else
        (∀ e ∈ (ofProject p).usage.edges, e.target = path → symbol ∉ e.names) ∧
          ¬ Text.StandsTwice symbol.toList own ∧
          ¬ p.IsMentionedByImporter (ofProject p).usage path symbol := by
  unfold isExportUsed
  split
  · exact isDefaultUsed_eq_false_iff
  · rw [Bool.or_eq_false_iff, Bool.or_eq_false_iff, isImported_eq_false_iff, and_assoc,
      ← Text.one_lt_copies_iff, ← any_importerTexts_iff, Bool.not_eq_true, decide_eq_false_iff_not]

/-! ### Exports that are recorded -/

/-- A language records the exports of a file where there are any. -/
theorem exists_mem_exports_iff :
    (∃ symbols, (ofProject p).usage.exports.find? path = some symbols ∧ symbol ∈ symbols) ↔
      path ∈ p.paths ∧ (∃ l : Language, l.owns path = true) ∧
        ∃ m, p.module? path = some m ∧ symbol ∈ m.exportNames := by
  have hexports : ∀ {name : String},
      name ∈ p.exportsOf path ↔ ∃ m, p.module? path = some m ∧ name ∈ m.exportNames := by
    intro name
    unfold Project.exportsOf
    cases p.module? path with
    | none => simp
    | some m => simp
  rw [exports_ofProject]
  constructor
  · intro h
    obtain ⟨symbols, hfound, hsymbol⟩ := h
    obtain ⟨hpath, howns, rfl, -⟩ := find?_exports_languageUsage.1 hfound
    exact ⟨hpath, howns, hexports.1 hsymbol⟩
  · intro h
    obtain ⟨hpath, howns, hsymbol⟩ := h
    have hmem := hexports.2 hsymbol
    exact ⟨p.exportsOf path,
      find?_exports_languageUsage.2 ⟨hpath, howns, rfl, List.ne_nil_of_mem hmem⟩, hmem⟩

/-- The conditions of the report, on the survey. -/
theorem exists_mem_unusedExports_iff :
    (∃ e ∈ s.unusedExports, e.file = path ∧ e.symbol = symbol) ↔
      (∃ symbols, s.usage.exports.find? path = some symbols ∧ symbol ∈ symbols) ∧
      path ∉ s.usage.entryPoints ∧ path ∉ s.orphanMap.keys ∧ s.isSuppressed path = false ∧
      s.isExportUsed path ((s.project.content? path).getD "").toList (s.importerTexts path)
        symbol = false := by
  constructor
  · intro h
    obtain ⟨e, he, rfl, rfl⟩ := h
    obtain ⟨symbols, hexports, hentry, horphan, hsuppressed, he⟩ := mem_unusedExports.1 he
    obtain ⟨hsymbol, hunused, -, -⟩ := mem_unusedExportsOf.1 he
    exact ⟨⟨symbols, hexports, hsymbol⟩, hentry, horphan, hsuppressed, hunused⟩
  · intro h
    obtain ⟨⟨symbols, hexports, hsymbol⟩, hentry, horphan, hsuppressed, hunused⟩ := h
    let e : UnusedExport := ⟨path, symbol, (s.project.module? path).bind (·.exportLine? symbol)⟩
    have he : e ∈ s.unusedExportsOf path symbols :=
      mem_unusedExportsOf.2 ⟨hsymbol, hunused, rfl, rfl⟩
    exact ⟨e, mem_unusedExports.2 ⟨symbols, hexports, hentry, horphan, hsuppressed, he⟩, rfl, rfl⟩

end Survey

/-- **Unused exports.** An export is reported exactly when its file is a language file that is
neither an entry point nor orphaned nor suppressed, and nothing uses it. The default export is used
by every import of its file. Another one is used by an import that asks for it by name, by a second
place in the text of its own file, and by a place in the text of another file that imports its file
directly or through a chain of re-exports. -/
theorem unusedExport_iff (config : Config) (files : List SourceNode) (path symbol : String) :
    let p := Project.ofFiles config files
    let outcome := analyze config files
    (∃ e ∈ outcome.unusedExports, e.file = path ∧ e.symbol = symbol) ↔
      (path ∈ p.paths ∧ (∃ l : Language, l.owns path = true) ∧
        ∃ m, p.module? path = some m ∧ symbol ∈ m.exportNames) ∧
      ¬ p.IsEntryPoint path ∧ path ∉ outcome.orphanedFiles.map (·.path) ∧
      (Path.isTooling (p.relative path) = false ∧ config.excludes path = false) ∧
      if symbol = "default" then ∀ e ∈ outcome.usage.edges, e.target ≠ path
      else
        (∀ e ∈ outcome.usage.edges, e.target = path → symbol ∉ e.names) ∧
          ¬ Text.StandsTwice symbol.toList ((p.content? path).getD "").toList ∧
          ¬ p.IsMentionedByImporter outcome.usage path symbol := by
  intro p outcome
  have houtcome : outcome = (Survey.ofProject p).outcome := rfl
  rw [map_path_orphanedFiles_analyze, houtcome]
  simp only [Survey.outcome]
  rw [Survey.exists_mem_unusedExports_iff, Survey.exists_mem_exports_iff,
    Survey.mem_entryPoints_ofProject, Survey.isSuppressed_eq_false_iff,
    Survey.isExportUsed_eq_false_iff, Survey.project_ofProject]

end DeadCode
