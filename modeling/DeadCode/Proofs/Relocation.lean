import DeadCode.Project.Manifests
import DeadCode.Proofs.InputOrder
import DeadCode.Proofs.SiblingImport

/-!
# DeadCode.Proofs.Relocation

A project moved to another place: the path of every file is put below an absolute directory. The
manifests of the project move along and say the same, provided that no segment of the directory is
the name of a directory for generated files. Whether a file is generated is judged by its whole
path, so below such a directory there are no manifests at all.
-/

namespace DeadCode

open Text

namespace Path

/-- The file name is the last segment. -/
theorem segments_eq_concat (path : String) : ∃ dirs, segments path = dirs ++ [fileName path] := by
  by_cases h : '/' ∈ path.toList
  · obtain ⟨dir, name, hpath, hname⟩ := exists_last_of_mem h
    refine ⟨(splitOn '/' dir).map String.ofList, ?_⟩
    rw [segments, hpath, splitOn_append_cons, splitOn_of_not_mem hname, fileName, hpath,
      cutLast_append_cons hname]
    simp
  · refine ⟨[], ?_⟩
    rw [segments, splitOn_of_not_mem h, fileName_self h]
    simp

/-- An absolute directory of ordinary segments. -/
structure Directory where
  segments : List (List Char)
  names : ∀ s ∈ segments, IsName s

namespace Directory

variable (d : Directory)

/-- The path below the directory that is `path` as seen from it. -/
def locate (path : String) : String := .ofList (rootText true ++ folderText d.segments) ++ path

/-- Whether the files below the directory count as generated. -/
def isGenerated : Bool := d.segments.any fun s => generatedDirectories.contains (.ofList s)

theorem toList_locate (path : String) :
    (d.locate path).toList = '/' :: (folderText d.segments ++ path.toList) := by
  simp [locate, rootText]

theorem locate_injective {a b : String} (h : d.locate a = d.locate b) : a = b := by
  have htext := congrArg String.toList h
  simp only [toList_locate, List.cons.injEq, true_and, List.append_cancel_left_eq] at htext
  exact String.toList_inj.1 htext

theorem locate_ne_empty (path : String) : d.locate path ≠ "" := by
  intro h
  have htext := congrArg String.toList h
  simp [toList_locate] at htext

theorem locate_lt {a b : String} (h : a < b) : d.locate a < d.locate b := by
  rw [String.lt_iff] at h ⊢
  simp only [locate, String.toList_append]
  exact List.append_left_lt h

theorem backslash_not_mem_folderText : '\\' ∉ folderText d.segments := by
  simp only [folderText, List.mem_flatMap, List.mem_append, List.mem_singleton, not_exists, not_and,
    not_or]
  exact fun s hs => ⟨(d.names s hs).noBackslash, by decide⟩

theorem withSlashes_locate (path : String) :
    withSlashes (d.locate path) = d.locate (withSlashes path) := by
  have hfolder : withSlashes (.ofList (folderText d.segments)) = .ofList (folderText d.segments) :=
    withSlashes_eq_self (by simpa using d.backslash_not_mem_folderText)
  have htext := congrArg String.toList hfolder
  simp only [withSlashes, String.toList_ofList] at htext
  apply String.toList_inj.1
  simp [withSlashes, toList_locate, htext]

theorem segments_locate (path : String) :
    Path.segments (d.locate path) = "" :: d.segments.map String.ofList ++ Path.segments path := by
  have hsplit : splitOn '/' (d.locate path).toList =
      [] :: (d.segments ++ splitOn '/' path.toList) := by
    rw [toList_locate, ← splitOn_folderText (fun s hs => (d.names s hs).noSlash)]
    exact splitOn_append_cons '/' [] _
  rw [Path.segments, hsplit]
  simp [Path.segments]

theorem fileName_locate (path : String) : fileName (d.locate path) = fileName path := by
  obtain ⟨dirs, hdirs⟩ := segments_eq_concat path
  obtain ⟨all, hall⟩ := segments_eq_concat (d.locate path)
  have hlast := d.segments_locate path
  rw [hall, hdirs, ← List.append_assoc] at hlast
  exact List.singleton_inj.1 (List.append_inj_right' hlast rfl)

theorem isEmpty_ofList_segment {s : List Char} (h : s ∈ d.segments) :
    (String.ofList s).isEmpty = false := by
  simpa [← String.toList_eq_nil_iff] using (d.names s h).ne_nil

/-- A file with a name is generated below a directory if the directory is, or if it is generated as
seen from there. -/
theorem isGenerated_locate {path : String} (h : fileName path ≠ "") :
    Path.isGenerated (d.locate path) = (d.isGenerated || Path.isGenerated path) := by
  obtain ⟨dirs, hdirs⟩ := segments_eq_concat path
  have hname : (!(fileName path).isEmpty) = true := by simpa using h
  have hkept : (d.segments.map String.ofList).filter (!·.isEmpty) =
      d.segments.map String.ofList := by
    refine List.filter_eq_self.2 fun segment hsegment => ?_
    obtain ⟨s, hs, rfl⟩ := List.mem_map.1 hsegment
    rw [d.isEmpty_ofList_segment hs]
    rfl
  have hparts : (Path.segments path).filter (!·.isEmpty) =
      dirs.filter (!·.isEmpty) ++ [fileName path] := by
    rw [hdirs, List.filter_append, List.filter_singleton, hname]
    rfl
  have hall : (Path.segments (d.locate path)).filter (!·.isEmpty) =
      d.segments.map String.ofList ++ dirs.filter (!·.isEmpty) ++ [fileName path] := by
    rw [d.segments_locate, List.cons_append, List.filter_cons_of_neg (by decide),
      List.filter_append, hkept, hparts, List.append_assoc]
  simp only [Path.isGenerated, hall, hparts, List.dropLast_concat, List.getLast?_concat,
    List.any_append, Option.getD_some, isGenerated, List.any_map, Bool.or_assoc]
  rfl

/-- A manifest stays one below a directory that is not generated. -/
theorem isManifest_locate (path : String) :
    isManifest (d.locate path) = (!d.isGenerated && isManifest path) := by
  rw [isManifest, isManifest, fileName_locate]
  by_cases h : fileName path = "package.json"
  · rw [d.isGenerated_locate (by rw [h]; decide), Bool.not_or]
    exact Bool.and_left_comm _ _ _
  · rw [beq_eq_false_iff_ne.2 h, Bool.false_and, Bool.false_and, Bool.and_false]

end Directory

end Path

/-- The node with its path put below a directory. -/
def SourceNode.below (d : Path.Directory) (node : SourceNode) : SourceNode :=
  { node with path := d.locate node.path }

/-! ### The files of a moved project -/

namespace Project

variable {config : Config} {files : List SourceNode} (d : Path.Directory)

theorem isFileAt_below (path : String) (node : SourceNode) :
    isFileAt (d.locate path) (node.below d) = isFileAt path node := by
  have hpath : Path.withSlashes (d.locate node.path) = d.locate path ↔
      Path.withSlashes node.path = path := by
    rw [d.withSlashes_locate]
    exact ⟨d.locate_injective, fun h => h ▸ rfl⟩
  rw [Bool.eq_iff_iff, isFileAt, isFileAt, Bool.and_eq_true, Bool.and_eq_true, beq_iff_eq,
    beq_iff_eq]
  exact and_congr Iff.rfl hpath

/-- The files of a project below a directory are found under their new paths. -/
theorem firstFile?_below (path : String) :
    firstFile? (files.map (SourceNode.below d)) (d.locate path) =
      (firstFile? files path).map (SourceNode.below d) := by
  have hat : isFileAt (d.locate path) ∘ SourceNode.below d = isFileAt path :=
    funext (isFileAt_below d path)
  rw [firstFile?, List.find?_map, hat]
  rfl

/-- A file has the same content after the move. -/
theorem content?_below {path : String} (h : path ≠ "") :
    (ofFiles config (files.map (SourceNode.below d))).content? (d.locate path) =
      (ofFiles config files).content? path := by
  have hthere : (nodesOf (files.map (SourceNode.below d))).find? (d.locate path) =
      ((nodesOf files).find? path).map (SourceNode.below d) := by
    rw [find?_nodesOf, find?_nodesOf, if_neg (d.locate_ne_empty path), if_neg h, firstFile?_below]
  have hcontent : ∀ files path, (ofFiles config files).content? path =
      ((nodesOf files).find? path).bind SourceNode.text? := fun _ _ => rfl
  rw [hcontent, hcontent, hthere, Option.bind_map]
  rfl

theorem mem_paths_iff {path : String} :
    path ∈ (ofFiles config files).paths ↔ path ≠ "" ∧ (firstFile? files path).isSome = true := by
  have hkeys : path ∈ (ofFiles config files).paths ↔
      ((nodesOf files).find? path).isSome = true := StringMap.contains_iff_mem_keys.symm
  rw [hkeys, find?_nodesOf]
  split <;> simp_all

/-- The paths of a moved project are the old ones below the directory; a file without a path has got
one by the move. -/
theorem mem_paths_below {x : String} :
    x ∈ (ofFiles config (files.map (SourceNode.below d))).paths ↔
      ∃ path, x = d.locate path ∧ (firstFile? files path).isSome = true := by
  rw [mem_paths_iff]
  constructor
  · rintro ⟨-, h⟩
    obtain ⟨moved, hmoved⟩ := Option.isSome_iff_exists.1 h
    obtain ⟨node, -, rfl⟩ := List.mem_map.1 (List.mem_of_find?_eq_some hmoved)
    have hat := List.find?_some hmoved
    simp only [isFileAt, Bool.and_eq_true, beq_iff_eq] at hat
    have hx : x = d.locate (Path.withSlashes node.path) := by
      rw [← hat.2, ← d.withSlashes_locate]
      rfl
    refine ⟨_, hx, ?_⟩
    rw [hx, firstFile?_below, Option.isSome_map] at h
    exact h
  · rintro ⟨path, rfl, h⟩
    rw [firstFile?_below, Option.isSome_map]
    exact ⟨d.locate_ne_empty path, h⟩

/-- The manifests move along, unless all files below the directory count as generated. -/
theorem filter_isManifest_below :
    (ofFiles config (files.map (SourceNode.below d))).paths.filter Path.isManifest =
      if d.isGenerated then []
      else ((ofFiles config files).paths.filter Path.isManifest).map d.locate := by
  split
  · next h =>
    refine List.filter_eq_nil_iff.2 fun x hx => ?_
    obtain ⟨path, rfl, -⟩ := (mem_paths_below d).1 hx
    simp [d.isManifest_locate, h]
  · next h =>
    rw [Bool.not_eq_true] at h
    have hthere := (ofFiles config (files.map (SourceNode.below d))).nodes.sorted
    have hhere := (ofFiles config files).nodes.sorted
    -- both lists are sorted, and locating keeps the order
    refine StringSet.eq_of_sorted (hthere.filter _) ?_ fun x => ?_
    · exact (hhere.filter _).map d.locate fun _ _ => d.locate_lt
    · rw [List.mem_filter, List.mem_map, mem_paths_below]
      constructor
      · rintro ⟨⟨path, rfl, hfile⟩, hmanifest⟩
        rw [d.isManifest_locate, h, Bool.not_false, Bool.true_and] at hmanifest
        have hne : path ≠ "" := by
          rintro rfl
          exact absurd hmanifest (by decide)
        exact ⟨path, List.mem_filter.2 ⟨mem_paths_iff.2 ⟨hne, hfile⟩, hmanifest⟩, rfl⟩
      · rintro ⟨path, hpath, rfl⟩
        obtain ⟨hmem, hmanifest⟩ := List.mem_filter.1 hpath
        refine ⟨⟨path, rfl, (mem_paths_iff.1 hmem).2⟩, ?_⟩
        rw [d.isManifest_locate, h, hmanifest]
        rfl

end Project

/-! ### What the manifests say -/

namespace Manifests

/-- The manifests of a project that can be read. -/
def packages (p : Project) : List (String × Package) :=
  (p.paths.filter Path.isManifest).filterMap fun path => (package? p path).map (path, ·)

theorem dependencies_ofProject (p : Project) : (ofProject p).dependencies =
    (packages p).flatMap fun entry => entry.2.allDependencies.map (⟨·, entry.1⟩) := rfl

theorem commands_ofProject (p : Project) :
    (ofProject p).commands = (packages p).flatMap fun entry => entry.2.commands := rfl

/-- The packages move with the directory, unless it is generated. -/
theorem packages_below (config : Config) (files : List SourceNode) (d : Path.Directory) :
    packages (.ofFiles config (files.map (SourceNode.below d))) =
      if d.isGenerated then []
      else (packages (.ofFiles config files)).map fun entry => (d.locate entry.1, entry.2) := by
  rw [packages, Project.filter_isManifest_below]
  split
  · rfl
  · rw [packages, List.filterMap_map, List.map_filterMap]
    refine List.filterMap_congr fun path hpath => ?_
    have hne : path ≠ "" := (Project.mem_paths_iff.1 (List.mem_filter.1 hpath).1).1
    simp only [Function.comp_def, package?, Project.content?_below d hne, Option.map_map]

end Manifests

/-- **A project may be moved.** Where the path of every file is put below an absolute directory, the
manifests are the same ones below that directory, with the same dependencies and commands in the
same order, unless a segment of the directory is the name of a directory for generated files: then
no manifest is found. -/
theorem manifests_moved (config : Config) (files : List SourceNode) (d : Path.Directory) :
    let here := Manifests.ofProject (.ofFiles config files)
    let there := Manifests.ofProject (.ofFiles config (files.map (SourceNode.below d)))
    if d.isGenerated then there.paths = [] ∧ there.dependencies = [] ∧ there.commands = []
    else
      there.paths = here.paths.map d.locate ∧
        there.dependencies = here.dependencies.map (fun declared =>
          ⟨declared.dependency, d.locate declared.manifest⟩) ∧
        there.commands = here.commands := by
  intro here there
  have hpaths : there.paths = if d.isGenerated then [] else here.paths.map d.locate :=
    Project.filter_isManifest_below d
  have hpackages := Manifests.packages_below config files d
  have hdependencies := Manifests.dependencies_ofProject
    (.ofFiles config (files.map (SourceNode.below d)))
  have hcommands := Manifests.commands_ofProject
    (.ofFiles config (files.map (SourceNode.below d)))
  split
  · next h =>
    rw [h, if_pos rfl] at hpaths hpackages
    rw [hpackages] at hdependencies hcommands
    exact ⟨hpaths, hdependencies, hcommands⟩
  · next h =>
    rw [if_neg h] at hpaths hpackages
    rw [hpackages] at hdependencies hcommands
    refine ⟨hpaths, hdependencies.trans ?_, hcommands.trans ?_⟩
    · rw [Manifests.dependencies_ofProject, List.flatMap_map, List.map_flatMap]
      simp only [List.map_map, Function.comp_def]
    · rw [Manifests.commands_ofProject, List.flatMap_map]

/-- A project with one manifest. -/
def manifestOnly : List SourceNode :=
  [.file "package.json" "\x7b\"dependencies\": \x7b\"lodash\": \"4\"\x7d\x7d"]

/-- A directory under which projects are checked out. -/
def buildDirectory : Path.Directory where
  segments := ["home".toList, "build".toList]
  names := by
    refine List.forall_mem_cons.2 ⟨?_, List.forall_mem_singleton.2 ?_⟩
    · exact ⟨⟨by decide, by decide, by decide⟩, by decide, by decide⟩
    · exact ⟨⟨by decide, by decide, by decide⟩, by decide, by decide⟩

/-- The manifest at `package.json` is found, and the one at `/home/build/package.json` is not. -/
theorem manifest_lost_below_build :
    (Manifests.ofProject (.ofFiles .default manifestOnly)).paths = ["package.json"] ∧
      (manifestOnly.map (SourceNode.below buildDirectory)).map (·.path) =
        ["/home/build/package.json"] ∧
      (Manifests.ofProject
        (.ofFiles .default (manifestOnly.map (SourceNode.below buildDirectory)))).paths = [] := by
  decide +kernel

end DeadCode
