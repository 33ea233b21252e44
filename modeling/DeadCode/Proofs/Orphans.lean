import DeadCode.Analysis.Run
import DeadCode.Proofs.Barrel
import DeadCode.Proofs.Liveness

/-!
# DeadCode.Proofs.Orphans

Which files are reported as orphaned. Without barrel groups these are the source files that are
neither live nor suppressed. With them, the members of a group that nothing outside its directory
keeps alive are added, live or not: in transitive mode a live file is reported exactly when all its
liveness comes from inside the directory of its barrel (`Project.IsKeptInside`).
-/

namespace DeadCode

open Relation

/-- The languages own the source files. -/
theorem Path.isSource_iff_owns {path : String} :
    Path.isSource path = true ↔ ∃ l : Language, l.owns path = true := by
  rw [Survey.exists_language]
  simp only [Path.isSource, Language.owns, Bool.or_eq_true]

theorem Survey.map_path_orphanedFiles (s : Survey) :
    s.outcome.orphanedFiles.map (·.path) = s.orphanMap.keys := by
  rw [outcome, orphanedFiles, List.map_map]
  rfl

section Analyze

variable {config : Config} {files : List SourceNode}

/-- The used files of an outcome are the live ones. -/
theorem mem_usedFiles_analyze {path : String} :
    path ∈ (analyze config files).usedFiles ↔ (Project.ofFiles config files).IsLive path := by
  rw [← Survey.mem_usedFiles, analyze, Survey.outcome]

theorem map_path_orphanedFiles_analyze :
    (analyze config files).orphanedFiles.map (·.path) =
      (Survey.ofProject (Project.ofFiles config files)).orphanMap.keys :=
  Survey.map_path_orphanedFiles _

end Analyze

namespace Survey

variable {s : Survey} {config : Config} {files : List SourceNode}

/-! ### The map of orphans -/

/-- The dead members of the groups, each with the barrel of its group. -/
theorem mem_deadInGroups {path : String} {barrel : Option String} :
    (path, barrel) ∈ s.deadInGroups ↔ s.project.config.reportBarrelGroups = true ∧
      ∃ g ∈ s.barrelGroups, path ∈ s.deadMembers g ∧ some g.barrel = barrel := by
  unfold deadInGroups
  split
  · next h =>
    simp only [List.mem_flatMap, List.mem_map, Prod.mk.injEq, h, true_and]
    refine exists_congr fun g => and_congr_right fun _ => ⟨?_, ?_⟩
    · intro h
      obtain ⟨x, hx, rfl, hbarrel⟩ := h
      exact ⟨hx, hbarrel⟩
    · intro h
      obtain ⟨hx, hbarrel⟩ := h
      exact ⟨path, hx, rfl, hbarrel⟩
  · next h => simp [h]

/-- Orphans are the unreached files and, where groups are reported, their dead members. -/
theorem mem_keys_orphanMap {path : String} :
    path ∈ s.orphanMap.keys ↔
      path ∈ s.unreached ∨ s.project.config.reportBarrelGroups = true ∧
        ∃ g ∈ s.barrelGroups, path ∈ s.deadMembers g := by
  rw [orphanMap, StringMap.mem_keys_insertMany, StringMap.mem_keys_ofList]
  simp only [List.mem_map, Prod.exists, mem_deadInGroups, Prod.mk.injEq]
  refine or_congr ?_ ?_
  · constructor
    · intro h
      obtain ⟨a, b, ⟨c, hc, rfl, -⟩, rfl⟩ := h
      exact hc
    · exact fun h => ⟨path, none, ⟨path, h, rfl, rfl⟩, rfl⟩
  · constructor
    · intro h
      obtain ⟨a, b, ⟨hreport, g, hg, hdead, -⟩, rfl⟩ := h
      exact ⟨hreport, g, hg, hdead⟩
    · intro h
      obtain ⟨hreport, g, hg, hdead⟩ := h
      exact ⟨path, some g.barrel, ⟨hreport, g, hg, hdead, rfl⟩, rfl⟩

/-- An orphan is a dead member of a group, given with its barrel, or a file that does not count as
used, given without one. -/
theorem mem_deadInGroups_or_mem_unreached {path : String} {barrel : Option String}
    (h : s.orphanMap.find? path = some barrel) :
    (path, barrel) ∈ s.deadInGroups ∨ barrel = none ∧ path ∈ s.unreached := by
  have hmem : (path, barrel) ∈ s.deadInGroups ∨ (path, barrel) ∈ s.unreached.map (·, none) := by
    rw [orphanMap, StringMap.ofList] at h
    rcases StringMap.mem_of_find?_insertMany h with h | h
    · exact .inl h
    · exact .inr ((StringMap.mem_of_find?_insertMany h).resolve_right (by simp))
  refine hmem.imp_right fun h => ?_
  obtain ⟨x, hx, heq⟩ := List.mem_map.1 h
  cases heq
  exact ⟨rfl, hx⟩

/-- A file that is reported without a barrel is one that does not count as used. -/
theorem mem_unreached_of_find?_orphanMap {path : String}
    (h : s.orphanMap.find? path = some none) : path ∈ s.unreached := by
  rcases mem_deadInGroups_or_mem_unreached h with hdead | ⟨-, hunreached⟩
  · -- an entry from a group names its barrel
    obtain ⟨-, g, -, -, hbarrel⟩ := mem_deadInGroups.1 hdead
    cases hbarrel
  · exact hunreached

/-! ### Files that do not count as used -/

theorem isSuppressed_eq_false_iff {path : String} :
    (ofProject (Project.ofFiles config files)).isSuppressed path = false ↔
      Path.isTooling ((Project.ofFiles config files).relative path) = false ∧
        config.excludes path = false :=
  Bool.or_eq_false_iff

/-- The unreached files are sources that are not live and that nothing suppresses. -/
theorem mem_unreached {path : String} :
    path ∈ (ofProject (Project.ofFiles config files)).unreached ↔
      path ∈ (Project.ofFiles config files).paths ∧ (∃ l : Language, l.owns path = true) ∧
        (ofProject (Project.ofFiles config files)).isSuppressed path = false ∧
        ¬ (Project.ofFiles config files).IsLive path := by
  simp only [unreached, List.mem_filter, Bool.and_eq_true, Bool.not_eq_true',
    Path.isSource_iff_owns, ← Bool.not_eq_true, StringSet.contains_iff, mem_usedFiles,
    mem_entryPoints_ofProject]
  constructor
  · intro h
    obtain ⟨hpath, ⟨⟨howns, hlive⟩, -⟩, hsuppressed⟩ := h
    exact ⟨hpath, howns, hsuppressed, hlive⟩
  · intro h
    obtain ⟨hpath, howns, hsuppressed, hlive⟩ := h
    exact ⟨hpath, ⟨⟨howns, hlive⟩, fun hentry => hlive hentry.isLive⟩, hsuppressed⟩

end Survey

/-- **Orphaned files are the dead ones.** Without barrel groups the orphaned files are listed in
strictly increasing order, and they are the files of some language that are neither live nor
suppressed. -/
theorem orphaned_iff_not_live (config : Config) (files : List SourceNode)
    (h : config.reportBarrelGroups = false) :
    let p := Project.ofFiles config files
    let orphans := (analyze config files).orphanedFiles.map (·.path)
    orphans.Pairwise (· < ·) ∧
      ∀ path, path ∈ orphans ↔
        path ∈ p.paths ∧ (∃ l : Language, l.owns path = true) ∧
          (Path.isTooling (p.relative path) = false ∧ config.excludes path = false) ∧
          ¬ p.IsLive path := by
  intro p orphans
  have horphans : orphans = (Survey.ofProject p).orphanMap.keys := map_path_orphanedFiles_analyze
  rw [horphans]
  refine ⟨(Survey.ofProject p).orphanMap.sorted, fun path => ?_⟩
  have hreport : (Survey.ofProject p).project.config.reportBarrelGroups = false := h
  rw [Survey.mem_keys_orphanMap, hreport, Survey.mem_unreached, Survey.isSuppressed_eq_false_iff]
  simp only [Bool.false_eq_true, false_and, or_false]
  exact Iff.rfl

/-- Two files that import each other, beside a file with its test. -/
def islandFiles : List SourceNode := [
  (SourceNode.file "ping.ts" "").withHints ["./pong"] [],
  (SourceNode.file "pong.ts" "").withHints ["./ping"] [],
  SourceNode.file "shape.ts" "",
  (SourceNode.file "shape.test.ts" "").withHints ["./shape"] []]

/-- Chains of imports count, and barrel groups are not reported. -/
def islandConfig : Config :=
  { Config.default with reachability := .transitive, reportBarrelGroups := false }

/-- Neither file of the island is live, though each is imported. -/
theorem not_isLive_island :
    ∀ x ∈ ["ping.ts", "pong.ts"], ¬ (Project.ofFiles islandConfig islandFiles).IsLive x := by
  have hedges : (Survey.languageUsage (Project.ofFiles islandConfig islandFiles)).edges.map
      (fun e => (e.source, e.target)) =
        [("ping.ts", "pong.ts"), ("pong.ts", "ping.ts"), ("shape.test.ts", "shape.ts")] := by
    decide
  have hentries : (Survey.entryUsage (Project.ofFiles islandConfig islandFiles)).entryPoints =
      StringSet.ofList ["shape.test.ts"] := by
    decide
  have hframeworks : (Project.ofFiles islandConfig islandFiles).activeFrameworks = [] := by
    decide
  intro x hx
  rw [Project.isLive_of_transitive rfl]
  refine Project.not_isReached_of_island ?_ ?_ hx
  · rintro y hy (hentry | ⟨f, hf, -⟩)
    · rw [← Survey.mem_entryPoints_entryUsage, hentries, StringSet.mem_ofList] at hentry
      revert y
      decide
    · rw [hframeworks] at hf
      cases hf
  · intro a b himport hb
    rw [Survey.imports_iff_mem, hedges] at himport
    simp only [List.mem_cons, Prod.mk.injEq, List.not_mem_nil, or_false] at himport hb ⊢
    rcases himport with ⟨rfl, -⟩ | ⟨rfl, -⟩ | ⟨-, rfl⟩
    · exact .inl rfl
    · exact .inr rfl
    · simp at hb

/-- Two files that import each other and are imported by no other. -/
theorem island_orphaned :
    let orphans := (analyze islandConfig islandFiles).orphanedFiles.map (·.path)
    islandConfig.reportBarrelGroups = false ∧ orphans.Pairwise (· < ·) ∧
      "ping.ts" ∈ orphans ∧ "pong.ts" ∈ orphans := by
  obtain ⟨hsorted, horphans⟩ := orphaned_iff_not_live islandConfig islandFiles rfl
  refine ⟨rfl, hsorted, (horphans _).2 ?_, (horphans _).2 ?_⟩
  · exact ⟨by decide +kernel, ⟨.javaScript, by decide +kernel⟩, by decide +kernel,
      not_isLive_island _ (by decide)⟩
  · exact ⟨by decide +kernel, ⟨.javaScript, by decide +kernel⟩, by decide +kernel,
      not_isLive_island _ (by decide)⟩

/-! ### Members of barrel groups -/

/-- A file owes its liveness to a directory: every live file from which a chain of imports leads to
it lies there. -/
def Project.IsKeptInside (p : Project) (dir path : String) : Prop :=
  ∀ source, p.IsReached source → ReflTransGen p.Imports source path →
    Path.isWithin source dir = true

namespace Survey

variable {s : Survey} {p : Project} {config : Config} {files : List SourceNode}

/-- A chain from a live file outside has a last step into the directory, and the file before that
step is live, too. -/
theorem not_isEnteredFrom_iff {used : StringSet} (hused : ∀ x, x ∈ used ↔ p.IsReached x)
    {dir path : String} (hpath : Path.isWithin path dir = true) :
    ¬ (ofProject p).usage.IsEnteredFrom used dir path ↔ p.IsKeptInside dir path := by
  have himports : (ofProject p).usage.ImportsInto dir =
      fun a b => p.Imports a b ∧ Path.isWithin b dir = true := by
    funext a b
    rw [Usage.ImportsInto, imports_ofProject]
  unfold Usage.IsEnteredFrom Project.IsKeptInside
  rw [himports]
  constructor
  · intro hnot source hsource hchain
    refine Decidable.byContradiction fun hout => ?_
    -- behind `c` the chain stays inside, so it is one of those that keep a file alive
    obtain ⟨c, d, hsc, hc, hcd, hd, hdpath⟩ :=
      exists_last_step_into (P := (Path.isWithin · dir = true)) hchain hout hpath
    obtain ⟨root, hroot, hrs⟩ := hsource
    have hreached : p.IsReached c := ⟨root, hroot, hrs.trans hsc⟩
    exact hnot ⟨c, d, (hused c).2 hreached, Bool.eq_false_iff.2 hc, ⟨hcd, hd⟩, hdpath⟩
  · rintro hkept ⟨source, target, hsource, hout, himport, hchain⟩
    have hsteps : ReflTransGen p.Imports target path :=
      ReflTransGen.mono (fun _ _ hab => hab.1) target path hchain
    have hin := hkept source ((hused source).1 hsource) (.head himport.1 hsteps)
    rw [hout] at hin
    cases hin

/-- Entry points and suppressed files are not reported as dead members. -/
theorem mem_deadMembers {g : BarrelGroup} {path : String} :
    path ∈ s.deadMembers g ↔ path ∈ g.deadMembers s.usage s.usedFiles ∧
      path ∉ s.usage.entryPoints ∧ s.isSuppressed path = false := by
  simp only [deadMembers, List.mem_filter, Bool.and_eq_true, Bool.not_eq_true',
    ← Bool.not_eq_true, StringSet.contains_iff]

theorem isGroupOf_of_mem_barrelGroups {g : BarrelGroup} (hg : g ∈ s.barrelGroups) :
    BarrelGroup.IsGroupOf s.usage s.usedFiles g :=
  BarrelGroup.isGroupOf_of_mem_groups hg

/-- Which members of a group are reported, said about the project alone. -/
theorem mem_deadMembers_iff_isKeptInside (h : config.reachability = .transitive) {g : BarrelGroup}
    (hg : g ∈ (ofProject (Project.ofFiles config files)).barrelGroups) {path : String} :
    path ∈ (ofProject (Project.ofFiles config files)).deadMembers g ↔
      (g.usedOutside = false ∧ g.contains path = true ∧
        (Project.ofFiles config files).IsKeptInside g.directory path) ∧
      ¬ (Project.ofFiles config files).IsEntryPoint path ∧
      (ofProject (Project.ofFiles config files)).isSuppressed path = false := by
  have hgroup := isGroupOf_of_mem_barrelGroups hg
  have hused : ∀ x, x ∈ (ofProject (Project.ofFiles config files)).usedFiles ↔
      (Project.ofFiles config files).IsReached x := fun x =>
    mem_usedFiles.trans (Project.isLive_of_transitive h)
  rw [mem_deadMembers, mem_entryPoints_ofProject, hgroup.mem_deadMembers_iff]
  refine and_congr_left fun _ => and_congr_right fun _ => and_congr_right fun hx => ?_
  exact not_isEnteredFrom_iff hused (hgroup.isWithin_of_contains hx)

end Survey

/-- **Live files are reported only inside barrel groups.** In transitive mode the used files are
those that a chain of imports reaches from an entry point or from a file that a framework uses. Such
a file is reported exactly when barrel groups are and it belongs to one that has no usage from
outside and to whose directory it owes its liveness; entry points and suppressed files never are.
What is reported without a barrel is not live. -/
theorem live_orphaned_iff_kept_inside (config : Config) (files : List SourceNode)
    (h : config.reachability = .transitive) :
    let p := Project.ofFiles config files
    let outcome := analyze config files
    (∀ path, path ∈ outcome.usedFiles ↔ p.IsReached path) ∧
      (∀ path ∈ outcome.usedFiles, path ∈ outcome.orphanedFiles.map (·.path) ↔
        config.reportBarrelGroups = true ∧ ¬ p.IsEntryPoint path ∧
          (Path.isTooling (p.relative path) = false ∧ config.excludes path = false) ∧
          ∃ g ∈ outcome.barrelGroups, g.usedOutside = false ∧ g.contains path = true ∧
            p.IsKeptInside g.directory path) ∧
      ∀ orphan ∈ outcome.orphanedFiles, orphan.barrel = none → orphan.path ∉ outcome.usedFiles := by
  intro p outcome
  have hunreached : ∀ path ∈ (Survey.ofProject p).unreached, path ∉ outcome.usedFiles := by
    intro path hpath hlive
    exact (Survey.mem_unreached.1 hpath).2.2.2 (mem_usedFiles_analyze.1 hlive)
  refine ⟨fun path => ?_, fun path hlive => ?_, fun orphan horphan hbarrel => ?_⟩
  · exact mem_usedFiles_analyze.trans (Project.isLive_of_transitive h)
  · -- a live file is not unreached, so only a group can bring it in
    have hreport : (Survey.ofProject p).project.config.reportBarrelGroups =
        config.reportBarrelGroups := rfl
    rw [map_path_orphanedFiles_analyze, Survey.mem_keys_orphanMap, hreport,
      or_iff_right fun hpath => hunreached path hpath hlive, ← Survey.isSuppressed_eq_false_iff]
    refine and_congr_right fun _ => ?_
    constructor
    · intro hdead
      obtain ⟨g, hg, hmember⟩ := hdead
      obtain ⟨hinside, hentry, hsuppressed⟩ :=
        (Survey.mem_deadMembers_iff_isKeptInside h hg).1 hmember
      exact ⟨hentry, hsuppressed, g, hg, hinside⟩
    · intro hkept
      obtain ⟨hentry, hsuppressed, g, hg, hinside⟩ := hkept
      exact ⟨g, hg,
        (Survey.mem_deadMembers_iff_isKeptInside h hg).2 ⟨hinside, hentry, hsuppressed⟩⟩
  · obtain ⟨⟨path, barrel⟩, hentry, rfl⟩ := List.mem_map.1 horphan
    subst hbarrel
    exact hunreached path (Survey.mem_unreached_of_find?_orphanMap (StringMap.mem_toList.1 hentry))

/-! ### A live file that is reported -/

/-- A component of a barrel is reported when all imports of the project start in the directory of
the barrel, be the component live or not. -/
theorem Survey.mem_orphans_of_imports_inside {config : Config} {files : List SourceNode}
    {path : String} (barrel pattern : String) (hreport : config.reportBarrelGroups = true)
    (hbarrel : barrel ∈ (Project.ofFiles config files).paths)
    (hpattern : BarrelGroup.pattern? config.barrelDirectories barrel = some pattern)
    (himport : (Project.ofFiles config files).Imports barrel path) (hne : path ≠ barrel)
    (hpath : Path.isWithin path (Path.parent barrel) = true)
    (hentry : ¬ (Project.ofFiles config files).IsEntryPoint path)
    (hsuppressed : (ofProject (Project.ofFiles config files)).isSuppressed path = false)
    (hinside : ∀ a b, (Project.ofFiles config files).Imports a b →
      Path.isWithin a (Path.parent barrel) = true) :
    path ∈ (analyze config files).orphanedFiles.map (·.path) := by
  let s := ofProject (Project.ofFiles config files)
  have himports : s.usage.Imports = (Project.ofFiles config files).Imports := imports_ofProject
  -- the group of the barrel: no import enters its directory, so nothing keeps its members
  let g := BarrelGroup.ofBarrel s.usage s.usedFiles barrel pattern
  have hmem : g ∈ s.barrelGroups :=
    BarrelGroup.mem_groups.2 ⟨barrel, hbarrel, pattern, hpattern, rfl⟩
  have hgroup : BarrelGroup.IsGroupOf s.usage s.usedFiles g := isGroupOf_of_mem_barrelGroups hmem
  have hcontains : g.contains path = true := by
    refine BarrelGroup.contains_iff.2 (.inr ((hgroup.mem_components path).2 ⟨⟨?_, hpath⟩, hne⟩))
    rw [himports]
    exact himport
  have houtside : ∀ {source target}, Path.isWithin source g.directory = false →
      ¬ s.usage.Imports source target := by
    intro source target hout h
    rw [himports] at h
    have hin : Path.isWithin source g.directory = true := hinside source target h
    rw [hout] at hin
    cases hin
  have hdead : path ∈ g.deadMembers s.usage s.usedFiles := by
    rw [hgroup.mem_deadMembers_iff]
    refine ⟨Bool.eq_false_iff.2 fun hused => ?_, hcontains, fun hentered => ?_⟩
    · obtain ⟨source, target, -, hout, h, -⟩ := hgroup.usedOutside_iff.1 hused
      exact houtside hout h
    · obtain ⟨source, target, -, hout, h, -⟩ := hentered
      exact houtside hout h.1
  rw [map_path_orphanedFiles_analyze, mem_keys_orphanMap]
  refine .inr ⟨hreport, g, hmem, ?_⟩
  rw [mem_deadMembers, mem_entryPoints_ofProject]
  exact ⟨hdead, hentry, hsuppressed⟩

/-- A barrel, its component, and a test of the component beside them. -/
def testedComponent : List SourceNode := [
  (SourceNode.file "components/index.ts" "").withHints ["./Card"] [],
  SourceNode.file "components/Card.ts" "",
  (SourceNode.file "components/Card.test.ts" "").withHints ["./Card"] []]

/-- The default configuration, with chains of imports. -/
def chainConfig : Config := { Config.default with reachability := .transitive }

/-- What a survey of these files starts from. -/
theorem survey_testedComponent :
    (Survey.languageUsage (Project.ofFiles chainConfig testedComponent)).edges.map
        (fun e => (e.source, e.target)) =
      [("components/Card.test.ts", "components/Card.ts"),
        ("components/index.ts", "components/Card.ts")] ∧
    (Survey.entryUsage (Project.ofFiles chainConfig testedComponent)).entryPoints =
      StringSet.ofList ["components/Card.test.ts"] := by
  decide +kernel

theorem imports_testedComponent {a b : String} :
    (Project.ofFiles chainConfig testedComponent).Imports a b ↔
      (a = "components/Card.test.ts" ∨ a = "components/index.ts") ∧ b = "components/Card.ts" := by
  rw [Survey.imports_iff_mem, survey_testedComponent.1]
  simp only [List.mem_cons, Prod.mk.injEq, List.not_mem_nil, or_false, or_and_right]

theorem isEntryPoint_testedComponent {path : String} :
    (Project.ofFiles chainConfig testedComponent).IsEntryPoint path ↔
      path = "components/Card.test.ts" := by
  rw [← Survey.mem_entryPoints_entryUsage, survey_testedComponent.2, StringSet.mem_ofList,
    List.mem_singleton]

theorem isReached_testedComponent :
    (Project.ofFiles chainConfig testedComponent).IsReached "components/Card.ts" := by
  have himport : (Project.ofFiles chainConfig testedComponent).Imports "components/Card.test.ts"
      "components/Card.ts" := imports_testedComponent.2 ⟨.inl rfl, rfl⟩
  exact ⟨"components/Card.test.ts", .inl (isEntryPoint_testedComponent.2 rfl), .single himport⟩

theorem mem_usedFiles_testedComponent :
    "components/Card.ts" ∈ (analyze chainConfig testedComponent).usedFiles := by
  rw [mem_usedFiles_analyze, Project.isLive_of_transitive rfl]
  exact isReached_testedComponent

theorem mem_orphans_testedComponent :
    "components/Card.ts" ∈ (analyze chainConfig testedComponent).orphanedFiles.map (·.path) := by
  have hentry :
      ¬ (Project.ofFiles chainConfig testedComponent).IsEntryPoint "components/Card.ts" := by
    rw [isEntryPoint_testedComponent]
    decide
  refine Survey.mem_orphans_of_imports_inside "components/index.ts" "components/" rfl ?_ ?_
    (imports_testedComponent.2 ⟨.inr rfl, rfl⟩) (by decide) ?_ hentry ?_ ?_
  · decide
  · decide
  · decide
  · decide
  · intro a b h
    obtain ⟨rfl | rfl, -⟩ := imports_testedComponent.1 h
    · decide
    · decide

/-- A test beside the component keeps it alive, and still the component is reported with its barrel,
because nothing outside their directory uses it. -/
theorem tested_component_live_and_orphaned :
    chainConfig.reachability = .transitive ∧
      (Project.ofFiles chainConfig testedComponent).IsReached "components/Card.ts" ∧
      "components/Card.ts" ∈ (analyze chainConfig testedComponent).usedFiles ∧
      "components/Card.ts" ∈ (analyze chainConfig testedComponent).orphanedFiles.map (·.path) :=
  ⟨rfl, isReached_testedComponent, mem_usedFiles_testedComponent, mem_orphans_testedComponent⟩

theorem tested_component_kept_inside :
    chainConfig.reachability = .transitive ∧
      "components/Card.ts" ∈ (analyze chainConfig testedComponent).usedFiles ∧
      ∃ g ∈ (analyze chainConfig testedComponent).barrelGroups, g.usedOutside = false ∧
        g.contains "components/Card.ts" = true ∧
        (Project.ofFiles chainConfig testedComponent).IsKeptInside g.directory
          "components/Card.ts" := by
  have hreported :=
    (live_orphaned_iff_kept_inside chainConfig testedComponent rfl).2.1 "components/Card.ts"
      mem_usedFiles_testedComponent
  obtain ⟨-, -, -, hgroup⟩ := hreported.1 mem_orphans_testedComponent
  exact ⟨rfl, mem_usedFiles_testedComponent, hgroup⟩

end DeadCode
