import DeadCode.Proofs.UnusedExports

/-!
# DeadCode.Proofs.Modes

The two modes of reachability on one project. The mode is read only where the used files are
computed, so two runs share their survey (`Survey.ofProject_withReachability`). Chains of imports
use fewer files than single imports do, so more files are orphaned, and the exports that are left
over are those of the other files.
-/

namespace DeadCode

/-- The project under another mode. -/
def Project.withReachability (p : Project) (mode : Reachability) : Project :=
  { p with config := { p.config with reachability := mode } }

/-- The survey under another mode. -/
def Survey.withReachability (s : Survey) (mode : Reachability) : Survey :=
  { s with project := s.project.withReachability mode }

/-! ### What does not depend on the mode -/

section Independent

variable (p : Project) (mode : Reachability)

/-- Reading the files does not depend on the mode. -/
theorem Project.ofFiles_reachability (config : Config) (files : List SourceNode) :
    Project.ofFiles { config with reachability := mode } files =
      (Project.ofFiles config files).withReachability mode := by
  rfl

theorem Manifests.ofProject_withReachability :
    Manifests.ofProject (p.withReachability mode) = Manifests.ofProject p := by
  rfl

theorem Language.usage_withReachability (l : Language) :
    l.usage (p.withReachability mode) = l.usage p := by
  rfl

theorem Framework.select_withReachability (hinted : List Framework) :
    Framework.select hinted (p.withReachability mode) = Framework.select hinted p := by
  rfl

theorem Framework.entryPoints_withReachability (f : Framework) :
    f.entryPoints (p.withReachability mode) = f.entryPoints p := by
  rfl

theorem Framework.usedFiles_withReachability (f : Framework) :
    f.usedFiles (p.withReachability mode) = f.usedFiles p := by
  have hpaths : (p.withReachability mode).paths = p.paths := rfl
  have husedBy : f.usedBy (p.withReachability mode) = f.usedBy p := rfl
  have hrelative : (p.withReachability mode).packageRelative = p.packageRelative := rfl
  have hcomponents : nuxtComponents (p.withReachability mode) = nuxtComponents p := by
    simp only [nuxtComponents, hpaths, hrelative]
  have hnuxt : nuxtUsedBy (p.withReachability mode) = nuxtUsedBy p := rfl
  rw [usedFiles, usedFiles, hpaths, husedBy, hcomponents, hnuxt]

/-- Nor does anything that is surveyed. -/
theorem Survey.ofProject_withReachability :
    ofProject (p.withReachability mode) = (ofProject p).withReachability mode := by
  simp only [ofProject, usageOf, withReachability, Manifests.ofProject_withReachability,
    Framework.select_withReachability, Framework.entryPoints_withReachability,
    Framework.usedFiles_withReachability, Language.usage_withReachability]
  rfl

/-- The mode matters from the used files on. -/
theorem analyze_reachability (config : Config) (files : List SourceNode) :
    analyze { config with reachability := mode } files =
      ((Survey.ofProject (Project.ofFiles config files)).withReachability mode).outcome := by
  rw [analyze, Project.ofFiles_reachability, Survey.ofProject_withReachability]

end Independent

namespace Survey

variable {s : Survey} {mode few many : Reachability} {path : String}

@[simp] theorem usage_withReachability : (s.withReachability mode).usage = s.usage := rfl

theorem usedFiles_referenced :
    (s.withReachability .referenced).usedFiles = s.usage.usedFiles ∪ s.usage.entryPoints := rfl

/-- The mode decides about an export only through the orphaned files. -/
theorem unusedExports_withReachability :
    (s.withReachability mode).unusedExports = s.usage.exports.toList.flatMap fun entry =>
      if s.usage.entryPoints.contains entry.1 ||
        (s.withReachability mode).orphanMap.contains entry.1 || s.isSuppressed entry.1 then []
      else s.unusedExportsOf entry.1 entry.2 := rfl

/-! ### Fewer used files, more orphans -/

/-- A chain of imports ends with an import. -/
theorem usedFiles_transitive_subset (config : Config) (files : List SourceNode) {x : String}
    (hx : x ∈ ((ofProject (Project.ofFiles config files)).withReachability .transitive).usedFiles) :
    x ∈ ((ofProject (Project.ofFiles config files)).withReachability .referenced).usedFiles := by
  rw [← ofProject_withReachability, ← Project.ofFiles_reachability, mem_usedFiles,
    Project.isLive_of_transitive rfl] at hx
  have hreferenced := mem_usage_usedFiles.2 (isReferenced_of_isReached hx)
  rw [Project.ofFiles_reachability, ofProject_withReachability, usage_withReachability]
    at hreferenced
  rw [usedFiles_referenced, StringSet.mem_union]
  exact .inl hreferenced

section Anti

variable (hused : ∀ x ∈ (s.withReachability few).usedFiles, x ∈ (s.withReachability many).usedFiles)

include hused

/-- Where more files are used, fewer are unreached. -/
theorem unreached_anti (h : path ∈ (s.withReachability many).unreached) :
    path ∈ (s.withReachability few).unreached := by
  simp only [unreached, List.mem_filter, Bool.and_eq_true, Bool.not_eq_true', ← Bool.not_eq_true,
    StringSet.contains_iff] at h ⊢
  obtain ⟨hpath, ⟨⟨hsource, hunused⟩, hentry⟩, hsuppressed⟩ := h
  exact ⟨hpath, ⟨⟨hsource, fun hfew => hunused (hused path hfew)⟩, hentry⟩, hsuppressed⟩

/-- A dead member of a group stays dead in the group that its barrel has in the other mode. -/
theorem deadMembers_anti {g : BarrelGroup} (hg : g ∈ (s.withReachability many).barrelGroups)
    (h : path ∈ (s.withReachability many).deadMembers g) :
    ∃ g ∈ (s.withReachability few).barrelGroups, path ∈ (s.withReachability few).deadMembers g := by
  obtain ⟨barrel, hbarrel, pattern, hpattern, rfl⟩ := BarrelGroup.mem_groups.1 hg
  obtain ⟨hdead, hentry, hsuppressed⟩ := mem_deadMembers.1 h
  exact ⟨_, BarrelGroup.mem_groups.2 ⟨barrel, hbarrel, pattern, hpattern, rfl⟩,
    mem_deadMembers.2 ⟨BarrelGroup.deadMembers_anti hused hdead, hentry, hsuppressed⟩⟩

/-- Where more files are used, fewer are orphans. Barrel groups only lose dead members when there
are more used files. -/
theorem orphanMap_anti (h : path ∈ (s.withReachability many).orphanMap.keys) :
    path ∈ (s.withReachability few).orphanMap.keys := by
  rw [mem_keys_orphanMap] at h ⊢
  rcases h with hunreached | ⟨hreport, g, hg, hdead⟩
  · exact .inl (unreached_anti hused hunreached)
  · exact .inr ⟨hreport, deadMembers_anti hused hg hdead⟩

/-- The exports of a file are judged alike in both modes, unless the file is orphaned. -/
theorem unusedExports_eq_filter :
    (s.withReachability few).unusedExports = (s.withReachability many).unusedExports.filter
      fun e => !(s.withReachability few).orphanMap.contains e.file := by
  have horphans : ∀ {path}, (s.withReachability many).orphanMap.contains path = true →
      (s.withReachability few).orphanMap.contains path = true := by
    intro path h
    rw [StringMap.contains_iff_mem_keys] at h ⊢
    exact orphanMap_anti hused h
  rw [unusedExports_withReachability, unusedExports_withReachability, List.filter_flatMap]
  congr 1
  funext entry
  have hfile : ∀ e ∈ s.unusedExportsOf entry.1 entry.2, e.file = entry.1 := fun e he =>
    (mem_unusedExportsOf.1 he).2.2.1
  rw [apply_ite (List.filter _), List.filter_nil]
  cases hfew : (s.withReachability few).orphanMap.contains entry.1 with
  | true =>
    -- all exports of the file are taken away, whether the other mode reports them or not
    have hnone : (s.unusedExportsOf entry.1 entry.2).filter
        (fun e => !(s.withReachability few).orphanMap.contains e.file) = [] := by
      refine List.filter_eq_nil_iff.2 fun e he => ?_
      rw [hfile e he, hfew]
      decide
    rw [hnone, Bool.or_true, Bool.true_or, if_pos rfl, ite_self]
  | false =>
    have hmany : (s.withReachability many).orphanMap.contains entry.1 = false := by
      refine Bool.eq_false_iff.2 fun h => ?_
      rw [horphans h] at hfew
      cases hfew
    have hall : (s.unusedExportsOf entry.1 entry.2).filter
        (fun e => !(s.withReachability few).orphanMap.contains e.file) =
          s.unusedExportsOf entry.1 entry.2 := by
      refine List.filter_eq_self.2 fun e he => ?_
      rw [hfile e he, hfew]
      rfl
    rw [hall, hmany]

end Anti

theorem isOrphaned_outcome : s.outcome.isOrphaned path = s.orphanMap.contains path := by
  rw [Bool.eq_iff_iff, StringMap.contains_iff_mem_keys, ← map_path_orphanedFiles]
  simp [Outcome.isOrphaned, outcome]

end Survey

/-- **The modes compared.** Asking for chains of imports in place of single ones makes fewer files
used and more files orphaned. It takes from the unused exports those of files that are orphaned, and
it changes neither the unused dependencies nor the usage nor the members of barrel groups. -/
theorem modes_compared (config : Config) (files : List SourceNode) :
    let referenced := analyze { config with reachability := .referenced } files
    let transitive := analyze { config with reachability := .transitive } files
    (∀ path ∈ transitive.usedFiles, path ∈ referenced.usedFiles) ∧
      (∀ path ∈ referenced.orphanedFiles.map (·.path),
        path ∈ transitive.orphanedFiles.map (·.path)) ∧
      transitive.unusedExports =
        referenced.unusedExports.filter (fun e => !transitive.isOrphaned e.file) ∧
      transitive.unusedDependencies = referenced.unusedDependencies ∧
      transitive.usage = referenced.usage ∧
      transitive.barrelGroups.map (fun g => (g.barrel, g.components, g.directory, g.pattern)) =
        referenced.barrelGroups.map
          (fun g => (g.barrel, g.components, g.directory, g.pattern)) := by
  intro referenced transitive
  -- both runs have one survey, which may be any from here on
  obtain ⟨s, hs⟩ : ∃ s, s = Survey.ofProject (Project.ofFiles config files) := ⟨_, rfl⟩
  have hreferenced : referenced = (s.withReachability .referenced).outcome := by
    rw [hs]
    exact analyze_reachability .referenced config files
  have htransitive : transitive = (s.withReachability .transitive).outcome := by
    rw [hs]
    exact analyze_reachability .transitive config files
  have hused : ∀ path ∈ (s.withReachability .transitive).usedFiles,
      path ∈ (s.withReachability .referenced).usedFiles := by
    rw [hs]
    exact fun _ => Survey.usedFiles_transitive_subset config files
  rw [hreferenced, htransitive]
  refine ⟨hused, ?_, ?_, rfl, rfl, BarrelGroup.map_members_groups _ _ _ _ _⟩
  · intro path hpath
    rw [Survey.map_path_orphanedFiles] at hpath ⊢
    exact Survey.orphanMap_anti hused hpath
  · simp only [Survey.isOrphaned_outcome]
    exact Survey.unusedExports_eq_filter hused

end DeadCode
