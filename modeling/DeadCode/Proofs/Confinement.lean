import DeadCode.Proofs.ImportMap
import DeadCode.Proofs.UnusedExports

/-!
# DeadCode.Proofs.Confinement

An outcome speaks of files of the project only. Paths come in from many sides, by imports and their
aliases, entries of manifests, conventions of frameworks and barrels, but each of them is either
picked from the paths of the project or resolved to a file that the resolver knows. All else that
an outcome mentions is put together from these. With no path from outside, the import graph has no
other nodes than the files of the project.
-/

namespace DeadCode

/-- Every path that an outcome mentions is one of `paths`. -/
structure Outcome.IsConfinedTo (o : Outcome) (paths : List String) : Prop where
  edges : ∀ e ∈ o.usage.edges, e.source ∈ paths ∧ e.target ∈ paths
  importMap : ∀ source targets, o.usage.importMap.find? source = some targets →
    source ∈ paths ∧ ∀ target ∈ targets, target ∈ paths
  exports : ∀ path symbols, o.usage.exports.find? path = some symbols → path ∈ paths
  usageUsedFiles : ∀ path ∈ o.usage.usedFiles, path ∈ paths
  entryPoints : ∀ path ∈ o.usage.entryPoints, path ∈ paths
  usedFiles : ∀ path ∈ o.usedFiles, path ∈ paths
  frameworkEntryPoints : ∀ e ∈ o.frameworkEntryPoints, e.path ∈ paths
  orphanedFiles : ∀ f ∈ o.orphanedFiles, f.path ∈ paths ∧ ∀ barrel ∈ f.barrel, barrel ∈ paths
  unusedExports : ∀ e ∈ o.unusedExports, e.file ∈ paths
  unusedDependencies : ∀ d ∈ o.unusedDependencies, d.manifest ∈ paths
  barrelGroups : ∀ g ∈ o.barrelGroups, g.barrel ∈ paths ∧ ∀ path ∈ g.components, path ∈ paths
  skippedFiles : ∀ path ∈ o.skippedFiles, path ∈ paths

/-! ### Files that are used -/

namespace Project

variable {config : Config} {files : List SourceNode} {path : String}

/-- Both ends of an import are files of the project. -/
theorem mem_paths_of_imports {source target : String}
    (h : (ofFiles config files).Imports source target) :
    source ∈ (ofFiles config files).paths ∧ target ∈ (ofFiles config files).paths := by
  obtain ⟨l, hsource, -, m, -, i, -, htarget, -⟩ := h
  exact ⟨hsource, mem_resolver_files.1 (Language.mem_files_of_resolve htarget)⟩

theorem mem_paths_of_framework_entryPoints {p : Project} {f : Framework} {e : EntryPoint}
    (h : e ∈ f.entryPoints p) : e.path ∈ p.paths := by
  obtain ⟨path, hpath, he⟩ := List.mem_filterMap.1 h
  obtain ⟨reason, -, rfl⟩ := Option.map_eq_some_iff.1 he
  exact (List.mem_filter.1 hpath).1

/-- Entry points are files of the project, whichever source of knowledge names them. -/
theorem mem_paths_of_isEntryPoint (h : (ofFiles config files).IsEntryPoint path) :
    path ∈ (ofFiles config files).paths := by
  rcases h with ⟨l, hlanguage⟩ | hmanifest | ⟨f, -, e, he, rfl⟩
  · exact (List.mem_filter.1 hlanguage).1
  · exact mem_resolver_files.1 (Manifests.mem_files_of_entryPoints hmanifest)
  · exact mem_paths_of_framework_entryPoints he

theorem mem_paths_of_isReferenced (h : (ofFiles config files).IsReferenced path) :
    path ∈ (ofFiles config files).paths := by
  rcases h with (hentry | hframework) | ⟨source, himport⟩
  · exact mem_paths_of_isEntryPoint hentry
  · exact Survey.mem_paths_of_isFrameworkUsed hframework
  · exact (mem_paths_of_imports himport).2

/-- Live files are files of the project, because they are entry points or ends of imports. -/
theorem mem_paths_of_isLive (h : (ofFiles config files).IsLive path) :
    path ∈ (ofFiles config files).paths := by
  unfold IsLive at h
  split at h
  · exact mem_paths_of_isReferenced h
  · exact mem_paths_of_isReferenced (Survey.isReferenced_of_isReached h)

theorem mem_paths_of_skipped (h : path ∈ (ofFiles config files).skipped) :
    path ∈ (ofFiles config files).paths :=
  StringMap.mem_keys_of_filterMap (m := nodesOf files) h

end Project

/-! ### Files that are reported -/

namespace Survey

variable {config : Config} {files : List SourceNode}

theorem mem_paths_of_barrelGroups {g : BarrelGroup}
    (h : g ∈ (ofProject (Project.ofFiles config files)).barrelGroups) :
    g.barrel ∈ (Project.ofFiles config files).paths ∧
      ∀ path ∈ g.components, path ∈ (Project.ofFiles config files).paths := by
  obtain ⟨barrel, hbarrel, pattern, -, rfl⟩ := BarrelGroup.mem_groups.1 h
  refine ⟨hbarrel, fun path hpath => ?_⟩
  obtain ⟨⟨himports, -⟩, -⟩ := ((BarrelGroup.isGroupOf_ofBarrel _ _).mem_components path).1 hpath
  rw [imports_ofProject] at himports
  exact (Project.mem_paths_of_imports himports).2

/-- The dead members of a group are its barrel and components. -/
theorem mem_paths_of_deadMembers {g : BarrelGroup} {path : String}
    (hg : g ∈ (ofProject (Project.ofFiles config files)).barrelGroups)
    (h : path ∈ (ofProject (Project.ofFiles config files)).deadMembers g) :
    path ∈ (Project.ofFiles config files).paths := by
  obtain ⟨hbarrel, hcomponents⟩ := mem_paths_of_barrelGroups hg
  have hdead := (List.mem_filter.1 h).1
  unfold BarrelGroup.deadMembers at hdead
  split at hdead
  · cases hdead
  · rcases List.mem_cons.1 (List.mem_filter.1 hdead).1 with rfl | hcomponent
    · exact hbarrel
    · exact hcomponents path hcomponent

/-- An orphan and the barrel that it is reported with are files of the project. -/
theorem mem_paths_of_orphanedFiles {f : OrphanedFile}
    (h : f ∈ (ofProject (Project.ofFiles config files)).orphanedFiles) :
    f.path ∈ (Project.ofFiles config files).paths ∧
      ∀ barrel ∈ f.barrel, barrel ∈ (Project.ofFiles config files).paths := by
  obtain ⟨⟨path, barrel⟩, hentry, rfl⟩ := List.mem_map.1 h
  rcases mem_deadInGroups_or_mem_unreached (StringMap.mem_toList.1 hentry) with
    hdead | ⟨rfl, hunused⟩
  · obtain ⟨-, g, hg, hmember, rfl⟩ := mem_deadInGroups.1 hdead
    refine ⟨mem_paths_of_deadMembers hg hmember, fun barrel hbarrel => ?_⟩
    cases hbarrel
    exact (mem_paths_of_barrelGroups hg).1
  · exact ⟨(mem_unreached.1 hunused).1, nofun⟩

theorem mem_paths_of_exports {path : String} {symbols : List String} {p : Project}
    (h : (ofProject p).usage.exports.find? path = some symbols) : path ∈ p.paths := by
  rw [exports_ofProject] at h
  exact (find?_exports_languageUsage.1 h).1

/-- A dependency is reported with the manifest that declares it. -/
theorem mem_paths_of_unusedDependencies {p : Project} {d : UnusedDependency}
    (h : d ∈ (ofProject p).unusedDependencies) : d.manifest ∈ p.paths := by
  obtain ⟨declared, hdeclared, rfl⟩ := List.mem_map.1 h
  obtain ⟨⟨path, package⟩, hpackage, hd⟩ := List.mem_flatMap.1 (List.mem_filter.1 hdeclared).1
  obtain ⟨dependency, -, rfl⟩ := List.mem_map.1 hd
  obtain ⟨manifest, hmanifest, hread⟩ := List.mem_filterMap.1 hpackage
  obtain ⟨_, -, heq⟩ := Option.map_eq_some_iff.1 hread
  cases heq
  exact (List.mem_filter.1 hmanifest).1

end Survey

/-! ### The import graph -/

namespace ImportGraph

theorem files_foldl_addFile (g : ImportGraph) (paths : List String) :
    (paths.foldl addFile g).files = Arrival.addAll g.files paths := by
  induction paths generalizing g with
  | nil => rfl
  | cons path paths ih => rw [List.foldl_cons, ih, Arrival.addAll_cons, files_addFile]

/-- An import between known files adds no file. -/
theorem files_addImport {g : ImportGraph} {e : ImportEdge} (hsource : e.source ∈ g.files)
    (htarget : e.target ∈ g.files) : (g.addImport e).files = g.files := by
  rw [addImport, files_addLink, files_addFile, files_addFile, Arrival.add_of_mem hsource,
    Arrival.add_of_mem htarget]

/-- Imports between known files bring no other files into the graph. -/
theorem files_ofUsage {paths : List String} {u : Usage} (hpaths : paths.Nodup)
    (h : ∀ e ∈ u.edges, e.source ∈ paths ∧ e.target ∈ paths) : (ofUsage paths u).files = paths := by
  have hstart : (paths.foldl addFile empty).files = paths := by
    rw [files_foldl_addFile]
    exact Arrival.addAll_of_nodup hpaths
  rw [ofUsage_eq]
  refine List.foldlRecOn (motive := fun g => files g = paths) u.edges addImport hstart
    fun g hg e he => ?_
  obtain ⟨hsource, htarget⟩ := h e he
  rw [files_addImport (hg.symm ▸ hsource) (hg.symm ▸ htarget), hg]

end ImportGraph

/-! ### Outcomes -/

namespace Survey

variable {config : Config} {files : List SourceNode}

@[simp] theorem usage_outcome (s : Survey) : s.outcome.usage = s.usage := rfl

@[simp] theorem usedFiles_outcome (s : Survey) : s.outcome.usedFiles = s.usedFiles := rfl

@[simp] theorem unusedExports_outcome (s : Survey) :
    s.outcome.unusedExports = s.unusedExports := rfl

/-- Each part of an outcome is traced to what produces it. -/
theorem isConfinedTo_outcome :
    (ofProject (Project.ofFiles config files)).outcome.IsConfinedTo
      (Project.ofFiles config files).paths where
  edges e he := by
    refine Project.mem_paths_of_imports ?_
    rw [← imports_ofProject]
    exact ⟨e, he, rfl, rfl⟩
  importMap source targets h := by
    rw [usage_outcome] at h
    obtain ⟨hne, himports⟩ := (isBuilt_usage _).isMapped.imports_of_find? h
    rw [imports_ofProject] at himports
    -- an entry is not empty, and an import from its file shows that the file is known
    obtain ⟨target, htarget⟩ := List.exists_mem_of_ne_nil targets hne
    exact ⟨(Project.mem_paths_of_imports (himports target htarget)).1, fun target htarget =>
      (Project.mem_paths_of_imports (himports target htarget)).2⟩
  exports path symbols h := mem_paths_of_exports h
  usageUsedFiles path h := by
    rw [usage_outcome, mem_usage_usedFiles] at h
    exact Project.mem_paths_of_isReferenced h
  entryPoints path h := by
    rw [usage_outcome, mem_entryPoints_ofProject] at h
    exact Project.mem_paths_of_isEntryPoint h
  usedFiles path h := by
    rw [usedFiles_outcome, mem_usedFiles] at h
    exact Project.mem_paths_of_isLive h
  frameworkEntryPoints e he := by
    obtain ⟨f, -, hf⟩ := List.mem_flatMap.1 he
    exact Project.mem_paths_of_framework_entryPoints hf
  orphanedFiles f hf := mem_paths_of_orphanedFiles hf
  unusedExports e he := by
    rw [unusedExports_outcome, mem_unusedExports] at he
    obtain ⟨symbols, hexports, -⟩ := he
    exact mem_paths_of_exports hexports
  unusedDependencies d hd := mem_paths_of_unusedDependencies hd
  barrelGroups g hg := mem_paths_of_barrelGroups hg
  skippedFiles path h := Project.mem_paths_of_skipped h

end Survey

/-- **No path comes from outside.** Every path that an outcome mentions is one of the project, no
file is recorded as importing itself, and the import graph has each file of the project as a node,
once, and no other node. -/
theorem outcome_stays_in_project (config : Config) (files : List SourceNode) :
    let p := Project.ofFiles config files
    let o := analyze config files
    o.IsConfinedTo p.paths ∧ (∀ e ∈ o.usage.edges, e.source ≠ e.target) ∧
      (ImportGraph.ofUsage p.paths o.usage).files = p.paths ∧ p.paths.Nodup := by
  intro p o
  have hconfined : o.IsConfinedTo p.paths := Survey.isConfinedTo_outcome
  have hnodup : p.paths.Nodup := StringMap.nodup_of_sorted p.nodes.sorted
  refine ⟨hconfined, fun e he => ?_, ImportGraph.files_ofUsage hnodup hconfined.edges, hnodup⟩
  have himports : (Survey.ofProject p).usage.Imports e.source e.target := ⟨e, he, rfl, rfl⟩
  rw [Survey.imports_ofProject] at himports
  obtain ⟨l, -, -, m, -, i, -, -, hne⟩ := himports
  exact hne.symm

end DeadCode
