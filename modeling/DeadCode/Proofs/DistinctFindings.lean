import DeadCode.Proofs.Confinement
import DeadCode.Proofs.Quoted
import DeadCode.Proofs.Relocation
import Mathlib.Data.Finset.Card

/-!
# DeadCode.Proofs.DistinctFindings

Whether something is reported twice. Two findings are equal only if they come from the same orphaned
file, export or dependency, so the question is put to the three lists of an outcome. Orphaned files
are the keys of a map. Dependencies stand in tables by name, in the manifest of a path. Exports are
listed by file, and a scan records every name once (`ModuleSyntax.HasDistinctExports`); but names
that a file brings along as hints are taken over as they are. So an export is reported twice exactly
when the hints of its file name it twice.
-/

namespace DeadCode

/-! ### Findings tell what they are about -/

theorem UnusedExport.finding_injective : Function.Injective UnusedExport.finding := by
  intro e e' h
  have hlocation := congrArg Finding.location h
  simp only [finding, Location.mk.injEq, Option.some.injEq] at hlocation
  obtain ⟨hfile, hline, hsymbol⟩ := hlocation
  cases e
  cases e'
  simp_all

/-- The kind and the version of a dependency can be told apart: no name of a kind is the beginning
of another one. -/
theorem DependencyKind.name_append_inj {kind kind' : DependencyKind} {version version' : String}
    (h : kind.name ++ " " ++ version = kind'.name ++ " " ++ version') :
    kind = kind' ∧ version = version' := by
  have htext := congrArg String.toList h
  simp only [String.toList_append] at htext
  cases kind <;> cases kind' <;> simp_all [DependencyKind.name]

theorem UnusedDependency.finding_injective : Function.Injective UnusedDependency.finding := by
  intro d d' h
  have hlocation := congrArg Finding.location h
  have hcontext := congrArg Finding.context h
  simp only [finding, Location.mk.injEq, Option.some.injEq, true_and] at hlocation hcontext
  obtain ⟨hmanifest, hname⟩ := hlocation
  obtain ⟨hkind, hversion⟩ := DependencyKind.name_append_inj hcontext
  obtain ⟨⟨name, version, kind⟩, manifest⟩ := d
  obtain ⟨⟨name', version', kind'⟩, manifest'⟩ := d'
  simp_all

namespace Outcome

/-- A list of findings is free of repetitions if the three lists are that it is made from. -/
theorem nodup_findings_iff {o : Outcome} (horphans : (o.orphanedFiles.map (·.path)).Nodup) :
    o.findings.Nodup ↔ o.unusedExports.Nodup ∧ o.unusedDependencies.Nodup := by
  have horphans' : (o.orphanedFiles.map (·.finding)).Nodup := by
    refine List.Nodup.of_map (fun f : Finding => f.location.file) ?_
    rwa [List.map_map]
  -- findings of different kinds differ in their category
  have hcategories : ∀ f ∈ o.orphanedFiles.map (·.finding) ++ o.unusedExports.map (·.finding),
      ∀ g ∈ o.unusedDependencies.map (·.finding), f ≠ g := by
    intro f hf g hg heq
    obtain ⟨d, -, rfl⟩ := List.mem_map.1 hg
    rcases List.mem_append.1 hf with hf | hf
    · obtain ⟨orphan, -, rfl⟩ := List.mem_map.1 hf
      cases congrArg Finding.category heq
    · obtain ⟨e, -, rfl⟩ := List.mem_map.1 hf
      cases congrArg Finding.category heq
  have hcategories' : ∀ f ∈ o.orphanedFiles.map (·.finding),
      ∀ g ∈ o.unusedExports.map (·.finding), f ≠ g := by
    intro f hf g hg heq
    obtain ⟨orphan, -, rfl⟩ := List.mem_map.1 hf
    obtain ⟨e, -, rfl⟩ := List.mem_map.1 hg
    cases congrArg Finding.category heq
  rw [findings, List.nodup_append, List.nodup_append,
    List.nodup_map_iff UnusedExport.finding_injective,
    List.nodup_map_iff UnusedDependency.finding_injective]
  constructor
  · intro h
    exact ⟨h.1.2.1, h.2.1⟩
  · intro h
    exact ⟨⟨horphans', h.1, hcategories'⟩, h.2, hcategories⟩

end Outcome

/-! ### Exports of scanned files -/

namespace ModuleSyntax

/-- Every name is exported once. -/
def HasDistinctExports (m : ModuleSyntax) : Prop := m.exportNames.Nodup

theorem hasDistinctExports_empty : empty.HasDistinctExports := List.nodup_nil

theorem HasDistinctExports.addImport {m : ModuleSyntax} (hm : m.HasDistinctExports) (i : Import) :
    (m.addImport i).HasDistinctExports :=
  hm

/-- An export of a name that is there already is passed over. -/
theorem HasDistinctExports.addExport {m : ModuleSyntax} (hm : m.HasDistinctExports)
    (e : ExportedSymbol) : (m.addExport e).HasDistinctExports := by
  unfold ModuleSyntax.addExport
  split
  · exact hm
  · next hnew =>
    have hname : e.name ∉ m.exportNames := by
      intro hmem
      obtain ⟨known, hknown, heq⟩ := List.mem_map.1 hmem
      exact hnew (List.any_eq_true.2 ⟨known, hknown, by simp [heq]⟩)
    show ((m.exports ++ [e]).map (·.name)).Nodup
    rw [List.map_append, List.map_singleton, ← List.concat_eq_append]
    exact hm.concat hname

/-- Whatever follows a module adds only names that are new to it. -/
theorem HasDistinctExports.extend {m : ModuleSyntax} (hm : m.HasDistinctExports)
    (other : ModuleSyntax) (offset : Nat) : (m.extend other offset).HasDistinctExports :=
  List.foldlRecOn (motive := HasDistinctExports) other.exports _ hm fun _ h _ _ => h.addExport _

end ModuleSyntax

/-- Facts are added one by one, and none adds a name twice. -/
theorem Script.hasDistinctExports_scanChars (dialect : Dialect) (script : List Char) :
    (scanChars dialect script).HasDistinctExports := by
  refine List.foldlRecOn (motive := ModuleSyntax.HasDistinctExports) _ _
    ModuleSyntax.hasDistinctExports_empty fun m hm fact _ => ?_
  cases fact with
  | imports left source specifiers kind => exact hm.addImport _
  | exports left name => exact hm.addExport _

theorem Script.hasDistinctExports_scanComponent (text : String) :
    (scanComponent text).HasDistinctExports :=
  List.foldlRecOn (motive := ModuleSyntax.HasDistinctExports) _ _
    ModuleSyntax.hasDistinctExports_empty fun _ hm entry _ => hm.extend _ entry.1

theorem Python.hasDistinctExports_scan (text : String) : (scan text).HasDistinctExports :=
  List.foldlRecOn (motive := ModuleSyntax.HasDistinctExports) _ _ List.nodup_nil
    fun _ hm e _ => hm.addExport e

namespace Project

/-- The exports that a file brings along as hints. -/
def hintedExports (p : Project) (path : String) : List String :=
  ((p.nodes.find? path).bind SourceNode.exportsHint).getD []

/-- Whatever the language, a scanned file has distinct exports. -/
theorem hasDistinctExports_of_scanText? {path text : String} {m : ModuleSyntax}
    (h : scanText? path text = some m) : m.HasDistinctExports := by
  unfold scanText? at h
  split at h
  · exact Option.some.inj h ▸ Python.hasDistinctExports_scan text
  · split at h
    · exact Option.some.inj h ▸ Script.hasDistinctExports_scanComponent text
    · obtain ⟨dialect, -, rfl⟩ := Option.map_eq_some_iff.1 h
      exact Script.hasDistinctExports_scanChars dialect text.toList

/-- A file exports its hints, or else what a scan found. -/
theorem exportsOf_eq_hintedExports_or (config : Config) (files : List SourceNode) (path : String) :
    (ofFiles config files).exportsOf path = (ofFiles config files).hintedExports path ∨
      (ofFiles config files).hintedExports path = [] ∧
        ((ofFiles config files).exportsOf path).Nodup := by
  have hmodule : (ofFiles config files).module? path =
      ((ofFiles config files).nodes.find? path).bind (moduleOf? config path) :=
    module?_ofNodes config (nodesOf files) path
  rw [exportsOf, hintedExports, hmodule]
  cases (ofFiles config files).nodes.find? path with
  | none => exact .inl rfl
  | some node =>
    rw [Option.bind_some, Option.bind_some, moduleOf?]
    cases hhints : node.hasHints with
    | true =>
      left
      simp [ModuleSyntax.ofHints, ModuleSyntax.exportNames, Function.comp_def]
    | false =>
      rw [SourceNode.hasHints, Bool.or_eq_false_iff, Option.isSome_eq_false_iff,
        Option.isNone_iff_eq_none, Option.isSome_eq_false_iff, Option.isNone_iff_eq_none] at hhints
      rw [hhints.2]
      refine .inr ⟨rfl, ?_⟩
      simp only [Bool.false_eq_true, if_false]
      cases hscan : ((textToScan? path node).filter (!exceedsLimits config ·)).bind
          (scanText? path) with
      | none => exact List.nodup_nil
      | some m =>
        obtain ⟨text, -, htext⟩ := Option.bind_eq_some_iff.1 hscan
        exact hasDistinctExports_of_scanText? htext

/-- An export is listed more than once only if the hints do so. -/
theorem count_exportsOf_le_one_iff {config : Config} {files : List SourceNode}
    {path symbol : String} :
    ((ofFiles config files).exportsOf path).count symbol ≤ 1 ↔
      ((ofFiles config files).hintedExports path).count symbol ≤ 1 := by
  rcases exportsOf_eq_hintedExports_or config files path with heq | ⟨hnone, hnodup⟩
  · rw [heq]
  · rw [hnone]
    exact iff_of_true (List.nodup_iff_count_le_one.1 hnodup symbol) (by simp)

end Project

/-! ### Exports that are reported -/

/-- A part of a list is free of repetitions if no member of it is repeated in the list. -/
theorem nodup_filter_iff {α : Type} [DecidableEq α] {P : α → Bool} {l : List α} :
    (l.filter P).Nodup ↔ ∀ a ∈ l.filter P, l.count a ≤ 1 := by
  rw [List.nodup_iff_count_le_one]
  constructor
  · intro h a ha
    have hcount := h a
    rwa [List.count_filter (List.mem_filter.1 ha).2] at hcount
  · intro h a
    by_cases ha : a ∈ l.filter P
    · exact (List.filter_sublist.count_le a).trans (h a ha)
    · rw [List.count_eq_zero_of_not_mem ha]
      exact Nat.zero_le 1

namespace Survey

variable {s : Survey} {config : Config} {files : List SourceNode}

/-- A file has an export reported twice only if it names it twice. -/
theorem nodup_unusedExportsOf {path : String} {symbols : List String} :
    (s.unusedExportsOf path symbols).Nodup ↔
      ∀ e ∈ s.unusedExportsOf path symbols, symbols.count e.symbol ≤ 1 := by
  have hinjective : Function.Injective fun symbol : String =>
      (⟨path, symbol, (s.project.module? path).bind (·.exportLine? symbol)⟩ : UnusedExport) :=
    fun _ _ h => congrArg UnusedExport.symbol h
  simp only [unusedExportsOf]
  rw [List.nodup_map_iff hinjective, nodup_filter_iff, List.forall_mem_map]

/-- The exports of a file that are reported, if the file is judged at all. -/
def reportedExports (s : Survey) (entry : String × List String) : List UnusedExport :=
  if s.usage.entryPoints.contains entry.1 || s.orphanMap.contains entry.1 ||
    s.isSuppressed entry.1 then []
  else s.unusedExportsOf entry.1 entry.2

theorem unusedExports_eq_flatMap (s : Survey) :
    s.unusedExports = s.usage.exports.toList.flatMap s.reportedExports := rfl

theorem mem_reportedExports {entry : String × List String} {e : UnusedExport}
    (h : e ∈ s.reportedExports entry) : e ∈ s.unusedExportsOf entry.1 entry.2 := by
  unfold reportedExports at h
  split at h
  · cases h
  · exact h

theorem nodup_reportedExports {entry : String × List String} :
    (s.reportedExports entry).Nodup ↔
      ∀ e ∈ s.reportedExports entry, entry.2.count e.symbol ≤ 1 := by
  unfold reportedExports
  split
  · simp
  · exact nodup_unusedExportsOf

/-- Exports of different files are different, so it is enough to look at each file. -/
theorem nodup_unusedExports_iff :
    s.unusedExports.Nodup ↔ ∀ e ∈ s.unusedExports, ∀ symbols,
      s.usage.exports.find? e.file = some symbols → symbols.count e.symbol ≤ 1 := by
  have hfile : ∀ {entry e}, e ∈ s.reportedExports entry → e.file = entry.1 := fun h =>
    (mem_unusedExportsOf.1 (mem_reportedExports h)).2.2.1
  have hdisjoint : s.usage.exports.toList.Pairwise
      (Function.onFun List.Disjoint s.reportedExports) := by
    refine (List.pairwise_map.1 s.usage.exports.sorted).imp fun {a b} hlt e ha hb => ?_
    rw [← hfile ha, ← hfile hb] at hlt
    exact String.lt_irrefl _ hlt
  rw [unusedExports_eq_flatMap, List.nodup_flatMap, and_iff_left hdisjoint]
  simp only [nodup_reportedExports, List.forall_mem_flatMap]
  constructor
  · intro h entry hentry e he symbols hsymbols
    rw [hfile he, StringMap.mem_toList.1 hentry] at hsymbols
    exact Option.some.inj hsymbols ▸ h entry hentry e he
  · intro h entry hentry e he
    refine h entry hentry e he entry.2 ?_
    rw [hfile he]
    exact StringMap.mem_toList.1 hentry

/-- An export is reported twice when the hints of its file name it twice. -/
theorem nodup_unusedExports_ofFiles :
    (ofProject (Project.ofFiles config files)).unusedExports.Nodup ↔
      ∀ e ∈ (ofProject (Project.ofFiles config files)).unusedExports,
        ((Project.ofFiles config files).hintedExports e.file).count e.symbol ≤ 1 := by
  rw [nodup_unusedExports_iff]
  refine forall_congr' fun e => forall_congr' fun he => ?_
  obtain ⟨symbols, hsymbols, -⟩ := mem_unusedExports.1 he
  have hexports : (Project.ofFiles config files).exportsOf e.file = symbols := by
    rw [exports_ofProject] at hsymbols
    exact (find?_exports_languageUsage.1 hsymbols).2.2.1
  rw [← Project.count_exportsOf_le_one_iff, hexports, hsymbols]
  constructor
  · intro h
    exact h symbols rfl
  · intro h other hother
    exact Option.some.inj hother ▸ h

end Survey

/-! ### Dependencies that are reported -/

namespace Package

/-- The dependencies of one table of a manifest. -/
def dependencyTable (entries : Option (StringMap String)) (kind : DependencyKind) :
    List Dependency :=
  (entries.getD .empty).toList.map fun entry => ⟨entry.1, entry.2, kind⟩

theorem nodup_dependencyTable (entries : Option (StringMap String)) (kind : DependencyKind) :
    (dependencyTable entries kind).Nodup := by
  refine List.Nodup.of_map Dependency.name ?_
  rw [dependencyTable, List.map_map]
  exact StringMap.nodup_of_sorted (entries.getD .empty).sorted

theorem kind_of_mem_dependencyTable {entries : Option (StringMap String)} {kind : DependencyKind}
    {d : Dependency} (h : d ∈ dependencyTable entries kind) : d.kind = kind := by
  obtain ⟨entry, -, rfl⟩ := List.mem_map.1 h
  rfl

theorem allDependencies_eq_flatMap (p : Package) : p.allDependencies =
    [(p.dependencies, DependencyKind.production), (p.devDependencies, .development),
      (p.peerDependencies, .peer), (p.optionalDependencies, .optional)].flatMap
        fun table => dependencyTable table.1 table.2 := by
  simp [allDependencies, dependencyTable]

/-- A manifest may declare a package several times, but then in tables of different kinds. -/
theorem nodup_allDependencies (p : Package) : p.allDependencies.Nodup := by
  rw [allDependencies_eq_flatMap, List.nodup_flatMap]
  refine ⟨fun table _ => nodup_dependencyTable table.1 table.2, ?_⟩
  refine List.Pairwise.imp (R := fun a b => a.2 ≠ b.2) ?_ (by simp)
  intro a b hne d ha hb
  exact hne ((kind_of_mem_dependencyTable ha).symm.trans (kind_of_mem_dependencyTable hb))

end Package

namespace Manifests

/-- Every package comes from a manifest of its own. -/
theorem pairwise_packages (p : Project) : (packages p).Pairwise fun a b => a.1 ≠ b.1 := by
  have hpaths : (p.paths.filter Path.isManifest).Pairwise (· ≠ ·) :=
    (StringMap.nodup_of_sorted p.nodes.sorted).filter _
  refine hpaths.filterMap _ fun path path' hne entry hentry entry' hentry' => ?_
  obtain ⟨package, -, rfl⟩ := Option.map_eq_some_iff.1 hentry
  obtain ⟨package', -, rfl⟩ := Option.map_eq_some_iff.1 hentry'
  exact hne

/-- A dependency is declared once in each table, and each table has a kind of its own. -/
theorem nodup_dependencies (p : Project) : (ofProject p).dependencies.Nodup := by
  rw [dependencies_ofProject, List.nodup_flatMap]
  constructor
  · intro entry _
    refine (Package.nodup_allDependencies entry.2).map ?_
    exact fun d d' h => congrArg DeclaredDependency.dependency h
  · refine (pairwise_packages p).imp fun {a b} hne d ha hb => ?_
    obtain ⟨_, -, rfl⟩ := List.mem_map.1 ha
    obtain ⟨_, -, heq⟩ := List.mem_map.1 hb
    exact hne (congrArg DeclaredDependency.manifest heq).symm

end Manifests

theorem Survey.nodup_unusedDependencies (p : Project) : (ofProject p).unusedDependencies.Nodup := by
  refine List.Nodup.map ?_ ((Manifests.nodup_dependencies p).filter _)
  intro d d' h
  cases d
  cases d'
  simp_all

/-- Orphaned files are listed by path and dependencies by manifest and name, so only an export can
be reported twice. -/
theorem Survey.nodup_findings_outcome (p : Project) :
    (ofProject p).outcome.findings.Nodup ↔ (ofProject p).unusedExports.Nodup := by
  have horphans : ((ofProject p).outcome.orphanedFiles.map (·.path)).Nodup := by
    rw [map_path_orphanedFiles]
    exact StringMap.nodup_of_sorted (ofProject p).orphanMap.sorted
  have hdependencies : (ofProject p).outcome.unusedDependencies.Nodup := nodup_unusedDependencies p
  rw [Outcome.nodup_findings_iff horphans, and_iff_left hdependencies, unusedExports_outcome]

/-! ### Counts -/

/-- The number of findings of a category. -/
def Metrics.count (m : Metrics) : FindingCategory → Nat
  | .orphanedFile => m.orphanedFiles
  | .unusedExport => m.unusedExports
  | .unusedDependency => m.unusedDependencies

namespace Outcome

/-- The metrics count the findings of each category. -/
theorem count_metrics (o : Outcome) (category : FindingCategory) :
    o.metrics.count category = (o.findings.filter (·.category = category)).length := by
  have horphans : ∀ orphan : OrphanedFile, orphan.finding.category = .orphanedFile := fun _ => rfl
  have hexports : ∀ e : UnusedExport, e.finding.category = .unusedExport := fun _ => rfl
  have hdependencies : ∀ d : UnusedDependency, d.finding.category = .unusedDependency :=
    fun _ => rfl
  cases category <;>
    simp [Metrics.count, metrics, findings, List.filter_map, Function.comp_def, horphans, hexports,
      hdependencies]

/-- The counts tell the number of different findings if none is repeated. -/
theorem nodup_findings_iff_count (o : Outcome) :
    o.findings.Nodup ↔ ∀ category, o.metrics.count category =
      (o.findings.toFinset.filter (·.category = category)).card := by
  have hcard : ∀ category, o.metrics.count category =
      (o.findings.toFinset.filter (·.category = category)).card ↔
        (o.findings.filter (·.category = category)).Nodup := by
    intro category
    have hfilter : o.findings.toFinset.filter (·.category = category) =
        (o.findings.filter (·.category = category)).toFinset := by
      ext f
      simp
    rw [count_metrics, hfilter, List.card_toFinset, ← List.dedup_eq_self, eq_comm,
      (List.dedup_sublist _).length_eq]
  simp only [hcard]
  constructor
  · intro h category
    exact h.filter _
  · intro h
    rw [List.nodup_iff_count_le_one]
    intro f
    have hcount := List.nodup_iff_count_le_one.1 (h f.category) f
    rwa [List.count_filter (by simp)] at hcount

end Outcome

/-- **What is reported twice.** The findings are free of repetitions, and the counts are those of
different findings, exactly when no export is reported that the hints of its file name more than
once. Where a file is scanned this is always so. -/
theorem findings_nodup_iff (config : Config) (files : List SourceNode) :
    let p := Project.ofFiles config files
    let o := analyze config files
    (o.findings.Nodup ↔
      ∀ e ∈ o.unusedExports, (p.hintedExports e.file).count e.symbol ≤ 1) ∧
    (o.findings.Nodup ↔ ∀ category, o.metrics.count category =
      (o.findings.toFinset.filter (·.category = category)).card) := by
  intro p o
  refine ⟨?_, o.nodup_findings_iff_count⟩
  rw [show o = (Survey.ofProject p).outcome from rfl, Survey.nodup_findings_outcome,
    Survey.unusedExports_outcome]
  exact Survey.nodup_unusedExports_ofFiles

/-- A program that imports a file whose hints name an export twice. -/
def repeatedHint : List SourceNode :=
  [(SourceNode.file "src/index.js" "").withHints ["./part"] [],
    (SourceNode.file "src/part.js" "").withHints [] ["x", "x"]]

theorem exists_unusedExport_repeatedHint :
    ∃ e ∈ (Survey.ofProject (Project.ofFiles .default repeatedHint)).unusedExports,
      e.file = "src/part.js" ∧ e.symbol = "x" := by
  rw [Survey.exists_mem_unusedExports_iff, Survey.exists_mem_exports_iff,
    Survey.isExportUsed_eq_false_iff, if_neg (by decide)]
  have hmodule : (Project.ofFiles .default repeatedHint).module? "src/part.js" =
      some ⟨[], [⟨"x", 0⟩, ⟨"x", 0⟩]⟩ := by decide +kernel
  refine ⟨⟨by decide +kernel, ⟨.javaScript, by decide +kernel⟩, _, hmodule, by decide⟩,
    by decide +kernel, by decide +kernel, by decide +kernel, by decide +kernel, ?_, ?_⟩
  · rw [← Text.one_lt_copies_iff]
    decide +kernel
  · -- no file has a text
    have htexts : ∀ entry ∈ (Project.ofFiles .default repeatedHint).nodes.toList,
        entry.2.text? = none := by decide +kernel
    rintro ⟨importer, text, -, hcontent, -⟩
    obtain ⟨node, hnode, htext⟩ := Option.bind_eq_some_iff.1 hcontent
    rw [htexts _ (StringMap.mem_toList.2 hnode)] at htext
    cases htext

/-- The export is reported once for each time that the hints name it. -/
theorem repeated_hint_reported_twice : ¬ (analyze .default repeatedHint).findings.Nodup := by
  rw [analyze, Survey.nodup_findings_outcome, Survey.nodup_unusedExports_ofFiles]
  intro h
  obtain ⟨e, he, hfile, hsymbol⟩ := exists_unusedExport_repeatedHint
  have hcount := h e he
  rw [hfile, hsymbol] at hcount
  exact absurd hcount (by decide +kernel)

end DeadCode
