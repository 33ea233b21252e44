import DeadCode.Analysis.Reach
import DeadCode.Proofs.ImportGraph
import DeadCode.Proofs.Resolver
import DeadCode.Proofs.Usage

/-!
# DeadCode.Proofs.Liveness

When a file is used, said about the project alone: by who runs it without an import
(`Project.IsRoot`) and by which file imports which (`Project.Imports`). The survey of a project
collects edges, entry points and marks from languages, manifests and frameworks into one `Usage`;
the lemmas here say that nothing is lost or made up on the way, so that `Survey.usedFiles` is
`Project.IsReferenced` in one mode and `Project.IsReached` in the other.
-/

namespace DeadCode

open Relation

namespace Project

/-- The frameworks whose conventions hold. -/
def activeFrameworks (p : Project) : List Framework :=
  Framework.select (Manifests.ofProject p).frameworks p

/-- An entry point of a language, of a manifest or of an active framework. -/
def IsEntryPoint (p : Project) (path : String) : Prop :=
  (∃ l : Language, path ∈ l.entryPoints p) ∨ path ∈ (Manifests.ofProject p).entryPoints ∨
    ∃ f ∈ p.activeFrameworks, ∃ e ∈ f.entryPoints p, e.path = path

/-- A file that an active framework shows to be used. -/
def IsFrameworkUsed (p : Project) (path : String) : Prop :=
  ∃ f ∈ p.activeFrameworks, path ∈ f.usedFiles p

/-- A file that is used without being imported. -/
def IsRoot (p : Project) (path : String) : Prop := p.IsEntryPoint path ∨ p.IsFrameworkUsed path

/-- A file of a language has an import, scanned or hinted, that its language resolves to another
file. -/
def Imports (p : Project) (source target : String) : Prop :=
  ∃ l : Language, source ∈ p.paths ∧ l.owns source = true ∧ ∃ m, p.module? source = some m ∧
    ∃ i ∈ m.imports, target ∈ l.resolve p.resolver source i ∧ target ≠ source

/-- Used without an import, or imported by some file. -/
def IsReferenced (p : Project) (path : String) : Prop :=
  p.IsRoot path ∨ ∃ source, p.Imports source path

/-- At the end of a chain of imports, possibly an empty one, from a file that is used without being
imported. -/
def IsReached (p : Project) (path : String) : Prop :=
  ∃ root, p.IsRoot root ∧ ReflTransGen p.Imports root path

/-- Used as the reachability of the configuration has it. -/
def IsLive (p : Project) (path : String) : Prop :=
  match p.config.reachability with
  | .referenced => p.IsReferenced path
  | .transitive => p.IsReached path

/-- Files that only import each other, with no root among them, are not reached. -/
theorem not_isReached_of_island {p : Project} {island : List String}
    (hroot : ∀ x ∈ island, ¬ p.IsRoot x) (hback : ∀ a b, p.Imports a b → b ∈ island → a ∈ island)
    {x : String} (hx : x ∈ island) : ¬ p.IsReached x := by
  intro h
  obtain ⟨root, hisRoot, hchain⟩ := h
  refine hroot root ?_ hisRoot
  -- follow the chain back from its end
  induction hchain with
  | refl => exact hx
  | tail _ hstep ih => exact ih (hback _ _ hstep hx)

/-- Entry points are live in both modes. -/
theorem IsEntryPoint.isLive {p : Project} {path : String} (h : p.IsEntryPoint path) :
    p.IsLive path := by
  unfold IsLive
  split
  · exact .inl (.inl h)
  · exact ⟨path, .inl h, .refl⟩

theorem isLive_of_transitive {p : Project} (h : p.config.reachability = .transitive)
    {path : String} : p.IsLive path ↔ p.IsReached path := by
  rw [IsLive, h]

end Project

/-! ### What the languages know together -/

namespace Survey

variable {p : Project}

/-- What the languages know about the use of files. -/
def languageUsage (p : Project) : Usage :=
  Language.all.foldl (fun u l => u.merge (l.usage p)) Usage.empty

theorem languageUsage_eq :
    languageUsage p = (Usage.empty.merge (Language.usage .javaScript p)).merge
      (Language.usage .python p) := rfl

/-- There are two languages. -/
theorem exists_language {motive : Language → Prop} :
    (∃ l, motive l) ↔ motive .javaScript ∨ motive .python :=
  ⟨fun ⟨l, h⟩ => match l, h with
    | .javaScript, h => .inl h
    | .python, h => .inr h,
    fun h => h.elim (⟨_, ·⟩) (⟨_, ·⟩)⟩

theorem isExplained_languageUsage : (languageUsage p).IsExplained :=
  (Usage.isExplained_empty.merge (Language.isExplained_usage _ p)).merge
    (Language.isExplained_usage _ p)

/-- The entry points of the languages are those of each. -/
theorem mem_entryPoints_languageUsage {x : String} :
    x ∈ (languageUsage p).entryPoints ↔ ∃ l : Language, x ∈ l.entryPoints p := by
  simp only [languageUsage_eq, Usage.mem_entryPoints_merge, Language.mem_entryPoints_usage,
    exists_language]
  simp [Usage.empty]

theorem mem_edges_languageUsage {e : ImportEdge} :
    e ∈ (languageUsage p).edges ↔ ∃ l : Language, e ∈ (l.usage p).edges := by
  simp only [languageUsage_eq, Usage.mem_edges_merge, exists_language]
  simp [Usage.empty]

/-- The exports that are recorded of a file are those of its module, if it has any, whichever
language recorded them. -/
theorem find?_exports_languageUsage {x : String} {symbols : List String} :
    (languageUsage p).exports.find? x = some symbols ↔
      x ∈ p.paths ∧ (∃ l : Language, l.owns x = true) ∧ p.exportsOf x = symbols ∧ symbols ≠ [] := by
  have hempty : Usage.empty.exports.find? x = none := rfl
  rw [languageUsage_eq, Usage.find?_exports_merge, Usage.find?_exports_merge, hempty,
    Option.or_none, Option.or_eq_some_iff, Language.find?_exports_usage,
    Language.find?_exports_usage, exists_language]
  constructor
  · intro hx
    rcases hx with ⟨hx, ho, h⟩ | ⟨-, hx, ho, h⟩
    · exact ⟨hx, .inr ho, h⟩
    · exact ⟨hx, .inl ho, h⟩
  · intro h
    obtain ⟨hx, ho, hs, hne⟩ := h
    -- the names do not depend on the language that recorded them
    cases hpy : (Language.usage .python p).exports.find? x with
    | some other =>
      obtain ⟨-, howns, hother, -⟩ := (Language.find?_exports_usage _ p).1 hpy
      exact .inl ⟨hx, howns, hs, hne⟩
    | none =>
      refine .inr ⟨rfl, hx, ho.resolve_right fun howns => ?_, hs, hne⟩
      have hfound := (Language.find?_exports_usage .python p).2 ⟨hx, howns, hs, hne⟩
      rw [hpy] at hfound
      cases hfound

/-! ### What the survey knows -/

@[simp] theorem project_ofProject : (ofProject p).project = p := rfl

theorem frameworkUsed_ofProject : (ofProject p).frameworkUsed =
    p.activeFrameworks.foldl (fun used f => used ∪ f.usedFiles p) .empty := rfl

theorem graph_ofProject : (ofProject p).graph = .ofUsage p.paths (ofProject p).usage := rfl

theorem mem_frameworkUsed {x : String} :
    x ∈ (ofProject p).frameworkUsed ↔ p.IsFrameworkUsed x := by
  have hstep : ∀ (used : StringSet) (f : Framework),
      x ∈ used ∪ f.usedFiles p ↔ x ∈ used ∨ x ∈ f.usedFiles p := fun _ _ => StringSet.mem_union
  rw [frameworkUsed_ofProject, foldl_iff _ (P := (x ∈ ·)) hstep]
  simp [Project.IsFrameworkUsed]

/-- The entry points of languages, manifests and frameworks, before any file is marked. -/
def entryUsage (p : Project) : Usage :=
  (p.activeFrameworks.flatMap (·.entryPoints p) |>.map (·.path)).foldl Usage.addEntryPoint
    ((Manifests.ofProject p).entryPoints.toList.foldl Usage.addEntryPoint (languageUsage p))

theorem usage_eq_foldl_markUsed :
    (ofProject p).usage = (ofProject p).frameworkUsed.toList.foldl Usage.markUsed (entryUsage p) :=
  rfl

theorem isExplained_entryUsage : (entryUsage p).IsExplained :=
  (isExplained_languageUsage.foldl_addEntryPoint _).foldl_addEntryPoint _

theorem edges_ofProject : (ofProject p).usage.edges = (languageUsage p).edges := by
  rw [usage_eq_foldl_markUsed, Usage.edges_foldl_markUsed, entryUsage,
    Usage.edges_foldl_addEntryPoint, Usage.edges_foldl_addEntryPoint]

theorem exports_ofProject : (ofProject p).usage.exports = (languageUsage p).exports := by
  rw [usage_eq_foldl_markUsed, Usage.exports_foldl_markUsed, entryUsage,
    Usage.exports_foldl_addEntryPoint, Usage.exports_foldl_addEntryPoint]

/-- The entry points come from languages, manifests and frameworks. -/
theorem mem_entryPoints_entryUsage {x : String} :
    x ∈ (entryUsage p).entryPoints ↔ p.IsEntryPoint x := by
  simp only [entryUsage, Usage.mem_entryPoints_foldl_addEntryPoint, mem_entryPoints_languageUsage,
    ← StringSet.mem_iff, List.mem_map, List.mem_flatMap, Project.IsEntryPoint, or_assoc]
  constructor
  · intro hx
    rcases hx with h | h | ⟨e, ⟨f, hf, he⟩, rfl⟩
    · exact .inl h
    · exact .inr (.inl h)
    · exact .inr (.inr ⟨f, hf, e, he, rfl⟩)
  · intro hx
    rcases hx with h | h | ⟨f, hf, e, he, rfl⟩
    · exact .inl h
    · exact .inr (.inl h)
    · exact .inr (.inr ⟨e, ⟨f, hf, he⟩, rfl⟩)

theorem mem_entryPoints_ofProject {x : String} :
    x ∈ (ofProject p).usage.entryPoints ↔ p.IsEntryPoint x := by
  rw [usage_eq_foldl_markUsed, Usage.entryPoints_foldl_markUsed, mem_entryPoints_entryUsage]

/-- The edges of the survey are the imports between the files of the project. -/
theorem imports_ofProject : (ofProject p).usage.Imports = p.Imports := by
  funext a b
  refine propext ⟨?_, ?_⟩
  · intro h
    obtain ⟨e, he, rfl, rfl⟩ := h
    rw [edges_ofProject, mem_edges_languageUsage] at he
    obtain ⟨l, he⟩ := he
    obtain ⟨path, hpath, howns, he⟩ := (Language.mem_edges_usage l p).1 he
    obtain ⟨m, hm, i, hi, rfl, ht, hne, -, -⟩ := Language.mem_edgesIn.1 he
    exact ⟨l, hpath, howns, m, hm, i, hi, ht, hne⟩
  · intro h
    obtain ⟨l, ha, howns, m, hm, i, hi, ht, hne⟩ := h
    refine ⟨⟨a, b, i.exportedNames, i.edgeKind⟩, ?_, rfl, rfl⟩
    rw [edges_ofProject, mem_edges_languageUsage]
    refine ⟨l, (Language.mem_edges_usage l p).2 ⟨a, ha, howns, ?_⟩⟩
    exact Language.mem_edgesIn.2 ⟨m, hm, i, hi, rfl, ht, hne, rfl, rfl⟩

/-- The imports of a project, as the edges that the languages find. -/
theorem imports_iff_mem {a b : String} :
    p.Imports a b ↔ (a, b) ∈ (languageUsage p).edges.map fun e => (e.source, e.target) := by
  rw [← imports_ofProject, Usage.Imports, edges_ofProject]
  simp only [List.mem_map, Prod.mk.injEq]

/-- The marks of the frameworks come last, so a used file is explained or marked. -/
theorem mem_usage_usedFiles {x : String} :
    x ∈ (ofProject p).usage.usedFiles ↔ p.IsReferenced x := by
  have himports : (∃ e ∈ (entryUsage p).edges, e.target = x) ↔ ∃ a, p.Imports a x := by
    rw [← imports_ofProject]
    simp only [Usage.Imports, edges_ofProject, entryUsage, Usage.edges_foldl_addEntryPoint]
    exact ⟨fun ⟨e, he, ht⟩ => ⟨e.source, e, he, rfl, ht⟩, fun ⟨a, e, he, _, ht⟩ => ⟨e, he, ht⟩⟩
  rw [usage_eq_foldl_markUsed, Usage.mem_usedFiles_foldl_markUsed, isExplained_entryUsage x,
    mem_entryPoints_entryUsage, himports, ← StringSet.mem_iff, mem_frameworkUsed]
  simp only [Project.IsReferenced, Project.IsRoot]
  exact or_right_comm

/-! ### Files that count as used -/

/-- What a chain of imports reaches is imported itself, or is where the chain starts. -/
theorem isReferenced_of_isReached {x : String} (h : p.IsReached x) : p.IsReferenced x := by
  obtain ⟨root, hroot, hchain⟩ := h
  rcases hchain.cases_tail with rfl | ⟨source, -, himport⟩
  · exact .inl hroot
  · exact .inr ⟨source, himport⟩

/-- When references count, the used files are those that are referenced. -/
theorem mem_usedFiles_of_referenced (h : p.config.reachability = .referenced) {x : String} :
    x ∈ (ofProject p).usedFiles ↔ p.IsReferenced x := by
  rw [usedFiles, project_ofProject, h]
  simp only [StringSet.mem_union, mem_usage_usedFiles, mem_entryPoints_ofProject]
  exact or_iff_left_of_imp fun hentry => .inl (.inl hentry)

/-- A root that the graph does not know has no imports, so it reaches only itself; as an entry point
it is used all the same. -/
theorem mem_usedFiles_of_transitive (h : p.config.reachability = .transitive)
    (hpaths : ∀ x, p.IsFrameworkUsed x → x ∈ p.paths) {x : String} :
    x ∈ (ofProject p).usedFiles ↔ p.IsReached x := by
  have himports : (ofProject p).graph.Imports = p.Imports := by
    rw [graph_ofProject, ImportGraph.imports_ofUsage, imports_ofProject]
  rw [usedFiles, project_ofProject, h]
  simp only [StringSet.mem_union, ImportGraph.mem_reachable_iff, himports, List.mem_append,
    ← StringSet.mem_iff, mem_entryPoints_ofProject, mem_frameworkUsed]
  constructor
  · intro h
    rcases h with ⟨root, hroot, -, hchain⟩ | hentry
    · exact ⟨root, hroot, hchain⟩
    · exact ⟨x, .inl hentry, .refl⟩
  · intro h
    obtain ⟨root, hroot, hchain⟩ := h
    by_cases hfile : root ∈ (ofProject p).graph.files
    · exact .inl ⟨root, hroot, hfile, hchain⟩
    · rcases hchain.cases_head with rfl | ⟨target, himport, -⟩
      · refine .inr (hroot.resolve_right fun hused => hfile ?_)
        rw [graph_ofProject]
        exact ImportGraph.mem_files_ofUsage (hpaths root hused)
      · rw [← himports] at himport
        exact absurd (ImportGraph.source_mem_files himport) hfile

theorem mem_paths_of_isFrameworkUsed {config : Config} {files : List SourceNode} {x : String}
    (h : (Project.ofFiles config files).IsFrameworkUsed x) :
    x ∈ (Project.ofFiles config files).paths := by
  obtain ⟨f, -, hx⟩ := h
  exact Framework.mem_paths_of_usedFiles hx

/-- The files that count as used are the live ones. -/
theorem mem_usedFiles {config : Config} {files : List SourceNode} {x : String} :
    x ∈ (ofProject (Project.ofFiles config files)).usedFiles ↔
      (Project.ofFiles config files).IsLive x := by
  unfold Project.IsLive
  split
  · next h => exact mem_usedFiles_of_referenced h
  · next h => exact mem_usedFiles_of_transitive h fun _ => mem_paths_of_isFrameworkUsed

end Survey

end DeadCode
