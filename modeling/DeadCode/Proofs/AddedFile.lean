import DeadCode.Proofs.Dependencies
import DeadCode.Proofs.Relocation

/-!
# DeadCode.Proofs.AddedFile

A project with one more file that is no manifest. The new file changes the files, the root, the
resolver and the languages of the project at once, but the manifests stay as they are, and so do the
declared dependencies and the commands. What else decides about a dependency, the texts that are
searched and the presence of TypeScript, can only grow. So an added file removes entries from the
list of unused dependencies, namely those that it uses itself, and never creates one.
-/

namespace DeadCode

/-- The path at which a project records a node. -/
def SourceNode.place (x : SourceNode) : String := Path.withSlashes x.path

/-! ### The files of a project with one more file -/

namespace Project

theorem isFileAt_iff {path : String} {x : SourceNode} (hfile : x.isFile = true) :
    isFileAt path x = true ↔ path = x.place := by
  rw [isFileAt, hfile, Bool.true_and, beq_iff_eq]
  exact eq_comm

/-- A file at a new path is recorded wherever it stands in the input. -/
theorem nodesOf_insert {before after : List SourceNode} {x : SourceNode} (hfile : x.isFile = true)
    (hplace : x.place ≠ "") (hnew : (nodesOf (before ++ after)).find? x.place = none) :
    nodesOf (before ++ x :: after) = (nodesOf (before ++ after)).insert x.place x := by
  refine StringMap.ext_find? fun path => ?_
  rw [StringMap.find?_insert, find?_nodesOf, find?_nodesOf]
  rw [find?_nodesOf, if_neg hplace] at hnew
  by_cases hpath : path = x.place
  · -- no file before it is at its path, so the search comes to it
    subst hpath
    have hbefore : before.find? (isFileAt x.place) = none := by
      rw [firstFile?, List.find?_append, Option.or_eq_none_iff] at hnew
      exact hnew.1
    have hat : isFileAt x.place x = true := (isFileAt_iff hfile).2 rfl
    rw [if_neg hplace, if_pos rfl, firstFile?, List.find?_append, hbefore, Option.none_or,
      List.find?_cons, hat]
  · have hat : isFileAt path x = false := by
      rw [Bool.eq_false_iff]
      exact fun h => hpath ((isFileAt_iff hfile).1 h)
    rw [if_neg hpath]
    simp only [firstFile?, List.find?_append, List.find?_cons, hat]

variable {p q : Project} {path : String} {x : SourceNode}

/-- A new file adds its own path and no other. -/
theorem mem_paths_of_insert (hq : q.nodes = p.nodes.insert path x) {other : String} :
    other ∈ q.paths ↔ other = path ∨ other ∈ p.paths := by
  have hkeys : ∀ r : Project, other ∈ r.paths ↔ (r.nodes.find? other).isSome = true := fun r =>
    StringMap.contains_iff_mem_keys.symm
  rw [hkeys, hkeys, hq, StringMap.find?_insert]
  by_cases h : other = path
  · simp [h]
  · simp [h]

/-- A new file brings its own content and leaves that of the others alone. -/
theorem content?_of_insert (hq : q.nodes = p.nodes.insert path x) (other : String) :
    q.content? other = if other = path then x.text? else p.content? other := by
  rw [content?, hq, StringMap.find?_insert]
  split
  · rfl
  · rfl

theorem hasTyped_of_insert (hq : q.nodes = p.nodes.insert path x) :
    q.hasTyped = (p.hasTyped || Path.isTyped path) := by
  rw [Bool.eq_iff_iff, Bool.or_eq_true, hasTyped, hasTyped, List.any_eq_true, List.any_eq_true]
  constructor
  · intro h
    obtain ⟨other, hother, htyped⟩ := h
    rcases (mem_paths_of_insert hq).1 hother with rfl | hother
    · exact .inr htyped
    · exact .inl ⟨other, hother, htyped⟩
  · intro h
    rcases h with ⟨other, hother, htyped⟩ | htyped
    · exact ⟨other, (mem_paths_of_insert hq).2 (.inr hother), htyped⟩
    · exact ⟨path, (mem_paths_of_insert hq).2 (.inl rfl), htyped⟩

/-- A file that is no manifest leaves the list of manifests as it is. -/
theorem filter_isManifest_of_insert (hq : q.nodes = p.nodes.insert path x)
    (hmanifest : Path.isManifest path = false) :
    q.paths.filter Path.isManifest = p.paths.filter Path.isManifest := by
  refine StringSet.eq_of_sorted (q.nodes.sorted.filter _) (p.nodes.sorted.filter _) fun other => ?_
  rw [List.mem_filter, List.mem_filter]
  refine and_congr_left fun hother => ?_
  have hne : other ≠ path := by
    rintro rfl
    rw [hmanifest] at hother
    cases hother
  rw [mem_paths_of_insert hq, or_iff_right hne]

end Project

/-! ### What the new file says about dependencies -/

/-- The text in which the new file may mention a dependency. -/
def SourceNode.searchedText (x : SourceNode) : List (List Char) :=
  if Path.isLockFile x.place then [] else x.text?.toList.map String.toList

/-- Whether a file uses a dependency: it mentions the package, or the dependency provides types and
the file is typed or mentions the package that they describe. -/
def SourceNode.usesDependency (x : SourceNode) (d : Dependency) : Bool :=
  Manifests.isUsed (Path.isTyped x.place) (Manifests.mentions [] x.searchedText) d

namespace Manifests

variable {p q : Project} {x : SourceNode}

/-- A mention is in the commands or in one of the texts, so the texts may be searched in two
parts. -/
theorem mentions_eq_or {commandWords texts old new : List (List Char)}
    (h : ∀ text, text ∈ texts ↔ text ∈ old ∨ text ∈ new) (name : String) :
    mentions commandWords texts name =
      (mentions commandWords old name || mentions [] new name) := by
  have hany : ∀ f : List Char → Bool, texts.any f = (old.any f || new.any f) := by
    intro f
    rw [Bool.eq_iff_iff, ← List.any_append, List.any_eq_true, List.any_eq_true]
    simp only [h, List.mem_append]
  simp only [mentions, hany, List.contains_nil, Bool.false_or, Bool.or_assoc]

/-- What counts as used for one reason or for another is told by the two reasons apart. -/
theorem isUsed_or (typed typed' : Bool) (mentioned mentioned' : String → Bool) (d : Dependency) :
    isUsed (typed || typed') (fun name => mentioned name || mentioned' name) d =
      (isUsed typed mentioned d || isUsed typed' mentioned' d) := by
  unfold isUsed
  split
  · dsimp only
    ac_rfl
  · rfl

/-- The manifests that can be read are the same ones. -/
theorem packages_of_insert (hq : q.nodes = p.nodes.insert x.place x)
    (hmanifest : Path.isManifest x.place = false) : packages q = packages p := by
  rw [packages, packages, Project.filter_isManifest_of_insert hq hmanifest]
  refine List.filterMap_congr fun path hpath => ?_
  have hne : path ≠ x.place := by
    rintro rfl
    rw [(List.mem_filter.1 hpath).2] at hmanifest
    cases hmanifest
  rw [package?, package?, Project.content?_of_insert hq, if_neg hne]

/-- A file that is no manifest adds at most its own text to those that are searched. -/
theorem mem_searchedTexts_of_insert (hq : q.nodes = p.nodes.insert x.place x)
    (hnew : p.nodes.find? x.place = none) (hmanifest : Path.isManifest x.place = false)
    (text : List Char) :
    text ∈ searchedTexts q ↔ text ∈ searchedTexts p ∨ text ∈ x.searchedText := by
  have hnone : p.content? x.place = none := by rw [Project.content?, hnew]; rfl
  rw [mem_searchedTexts_iff, mem_searchedTexts_iff]
  simp only [Project.content?_of_insert hq]
  constructor
  · intro h
    obtain ⟨path, content, hcontent, hpath, hlock, rfl⟩ := h
    -- the text is that of the new file or of one that was there
    split at hcontent
    · next heq =>
      subst heq
      exact .inr (by simp [SourceNode.searchedText, hlock, hcontent])
    · exact .inl ⟨path, content, hcontent, hpath, hlock, rfl⟩
  · intro h
    rcases h with ⟨path, content, hcontent, hpath, hlock, rfl⟩ | hown
    · have hne : path ≠ x.place := by
        rintro rfl
        rw [hnone] at hcontent
        cases hcontent
      exact ⟨path, content, by rwa [if_neg hne], hpath, hlock, rfl⟩
    · unfold SourceNode.searchedText at hown
      split at hown
      · cases hown
      · next hlock =>
        obtain ⟨content, hcontent, rfl⟩ := List.mem_map.1 hown
        rw [Bool.not_eq_true] at hlock
        exact ⟨x.place, content, by rwa [if_pos rfl, ← Option.mem_toList], hmanifest, hlock, rfl⟩

/-- What is unused with the new file is what was unused before and is not used by the file. -/
theorem unused_of_insert (hq : q.nodes = p.nodes.insert x.place x)
    (hnew : p.nodes.find? x.place = none) (hmanifest : Path.isManifest x.place = false) :
    (ofProject q).unused q =
      ((ofProject p).unused p).filter fun d => !x.usesDependency d.dependency := by
  have hdependencies : (ofProject q).dependencies = (ofProject p).dependencies := by
    rw [dependencies_ofProject, dependencies_ofProject, packages_of_insert hq hmanifest]
  have hcommands : (ofProject q).commands = (ofProject p).commands := by
    rw [commands_ofProject, commands_ofProject, packages_of_insert hq hmanifest]
  have hmentions : ∀ commandWords, mentions commandWords (searchedTexts q) =
      fun name => mentions commandWords (searchedTexts p) name || mentions [] x.searchedText name :=
    fun commandWords => funext (mentions_eq_or (mem_searchedTexts_of_insert hq hnew hmanifest))
  simp only [unused, hdependencies, hcommands, hmentions, Project.hasTyped_of_insert hq, isUsed_or,
    List.filter_filter]
  refine List.filter_congr fun d _ => ?_
  rw [SourceNode.usesDependency, Bool.not_or]
  ac_rfl

end Manifests

/-! ### The outcome -/

theorem unusedDependencies_analyze (config : Config) (files : List SourceNode) :
    (analyze config files).unusedDependencies =
      ((Manifests.ofProject (Project.ofFiles config files)).unused
        (Project.ofFiles config files)).map fun d => ⟨d.dependency, d.manifest⟩ := rfl

/-- **More source never creates an unused dependency.** A file that is no manifest is added anywhere
in the input, at a path where there is no file yet. Then the unused dependencies are a sublist of
the former ones: those that the file does not use. -/
theorem unusedDependencies_added_file (config : Config) (before after : List SourceNode)
    (x : SourceNode) (hfile : x.isFile = true) (hplace : x.place ≠ "")
    (hnew : x.place ∉ (Project.ofFiles config (before ++ after)).paths)
    (hmanifest : Path.isManifest x.place = false) :
    let extended := analyze config (before ++ x :: after)
    let original := analyze config (before ++ after)
    extended.unusedDependencies.Sublist original.unusedDependencies ∧
      extended.unusedDependencies =
        original.unusedDependencies.filter fun d => !x.usesDependency d.dependency := by
  intro extended original
  have hnone : (Project.nodesOf (before ++ after)).find? x.place = none := by
    rw [← Option.not_isSome_iff_eq_none]
    exact fun h => hnew (StringMap.contains_iff_mem_keys.1 h)
  have hnodes : (Project.ofFiles config (before ++ x :: after)).nodes =
      (Project.ofFiles config (before ++ after)).nodes.insert x.place x :=
    Project.nodesOf_insert hfile hplace hnone
  have heq : extended.unusedDependencies =
      original.unusedDependencies.filter fun d => !x.usesDependency d.dependency := by
    rw [unusedDependencies_analyze, unusedDependencies_analyze,
      Manifests.unused_of_insert hnodes hnone hmanifest, List.filter_map]
    rfl
  exact ⟨heq ▸ List.filter_sublist, heq⟩

/-- A manifest with a package, its types, and a tool that a command calls. -/
def lintedManifest : SourceNode :=
  .file "package.json" ("\x7b\"dependencies\": \x7b\"lodash\": \"4\", \"@types/lodash\": \"4\", " ++
    "\"eslint\": \"8\", \"left-pad\": \"1\"\x7d, \"scripts\": \x7b\"lint\": \"eslint .\"\x7d\x7d")

/-- The manifest of a vendored package, which is none of the project. -/
def vendoredManifest : SourceNode :=
  .file "node_modules/chart/package.json" "\x7b\"dependencies\": \x7b\"lodash\": \"3\"\x7d\x7d"

/-- The vendored manifest mentions a package, and uses its types with it. -/
theorem unusedDependencies_added_vendored :
    let unused (files : List SourceNode) :=
      (analyze .default files).unusedDependencies.map (·.dependency.name)
    unused [lintedManifest] = ["@types/lodash", "left-pad", "lodash"] ∧
      unused [vendoredManifest, lintedManifest] = ["left-pad"] := by
  intro unused
  have horiginal : (analyze .default [lintedManifest]).unusedDependencies =
      [⟨⟨"@types/lodash", "4", .production⟩, "package.json"⟩,
        ⟨⟨"left-pad", "1", .production⟩, "package.json"⟩,
        ⟨⟨"lodash", "4", .production⟩, "package.json"⟩] := by
    rw [unusedDependencies_analyze]
    decide +kernel
  have hextended := (unusedDependencies_added_file .default [] [lintedManifest] vendoredManifest
    (by decide) (by decide) (by decide +kernel) (by decide +kernel)).2
  constructor
  · simp only [unused, horiginal]
    decide
  · simp only [List.nil_append, horiginal] at hextended
    simp only [unused, hextended]
    decide +kernel

end DeadCode
