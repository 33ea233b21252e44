import DeadCode.Analysis.Run
import DeadCode.Proofs.StringMap
import Mathlib.Data.List.Nodup

/-!
# DeadCode.Proofs.InputOrder

The order of the input plays no part. All that an analysis sees of its input is the map of files
that a project is built from, and this map depends only on which file comes first at each path
(`Project.firstFile?`). So shuffling the nodes changes nothing as long as no two files share a path,
and neither does a node that is no file, has no path, or repeats the path of an earlier file.
-/

namespace DeadCode

namespace Project

/-- Whether a node is a file at `path`, once its path is written with slashes. -/
def isFileAt (path : String) (node : SourceNode) : Bool :=
  node.isFile && Path.withSlashes node.path == path

/-- The first file at a path. -/
def firstFile? (files : List SourceNode) (path : String) : Option SourceNode :=
  files.find? (isFileAt path)

/-- Two inputs with the same first file at every path. -/
def SameFiles (files others : List SourceNode) : Prop :=
  ∀ path, path ≠ "" → firstFile? files path = firstFile? others path

/-! ### The map of files -/

/-- The map with one more node. -/
def addNode (nodes : Nodes) (node : SourceNode) : Nodes :=
  if node.isFile && !(Path.withSlashes node.path).isEmpty then
    nodes.insertIfNew (Path.withSlashes node.path) node
  else nodes

theorem nodesOf_eq (files : List SourceNode) : nodesOf files = files.foldl addNode .empty := rfl

/-- A file is recorded at its path unless one is known there. -/
theorem find?_addNode (nodes : Nodes) (node : SourceNode) (path : String) :
    (addNode nodes node).find? path =
      (nodes.find? path).or (if path ≠ "" ∧ isFileAt path node then some node else none) := by
  unfold addNode
  split
  · next h =>
    rw [Bool.and_eq_true, Bool.not_eq_true', String.isEmpty_eq_false_iff] at h
    rw [StringMap.find?_insertIfNew]
    by_cases hpath : path = Path.withSlashes node.path
    · subst hpath
      have hat : isFileAt (Path.withSlashes node.path) node = true := by simp [isFileAt, h.1]
      rw [if_pos rfl, if_pos ⟨h.2, hat⟩]
      cases nodes.find? (Path.withSlashes node.path) <;> rfl
    · have hat : ¬ isFileAt path node = true := by simp [isFileAt, Ne.symm hpath]
      rw [if_neg hpath, if_neg fun h => hat h.2, Option.or_none]
  · next h =>
    have hat : ¬ (path ≠ "" ∧ isFileAt path node = true) := by
      rintro ⟨hne, hat⟩
      simp only [isFileAt, Bool.and_eq_true, beq_iff_eq] at hat
      simp [hat.1, hat.2, hne] at h
    rw [if_neg hat, Option.or_none]

/-- Of the files at one path the first one counts. -/
theorem find?_foldl_addNode (files : List SourceNode) (nodes : Nodes) {path : String}
    (hpath : path ≠ "") :
    (files.foldl addNode nodes).find? path = (nodes.find? path).or (firstFile? files path) := by
  induction files generalizing nodes with
  | nil => simp [firstFile?]
  | cons node files ih =>
    rw [List.foldl_cons, ih, find?_addNode, Option.or_assoc]
    congr 1
    rw [firstFile?, firstFile?, List.find?_cons]
    cases isFileAt path node <;> simp [hpath]

theorem find?_foldl_addNode_empty (files : List SourceNode) (nodes : Nodes) :
    (files.foldl addNode nodes).find? "" = nodes.find? "" := by
  induction files generalizing nodes with
  | nil => rfl
  | cons node files ih => rw [List.foldl_cons, ih, find?_addNode]; simp

/-- The first file at a path is the one that counts, and none counts without a path. -/
theorem find?_nodesOf (files : List SourceNode) (path : String) :
    (nodesOf files).find? path = if path = "" then none else firstFile? files path := by
  rw [nodesOf_eq]
  split
  · next h => rw [h, find?_foldl_addNode_empty, StringMap.find?_empty]
  · next h => rw [find?_foldl_addNode files .empty h, StringMap.find?_empty, Option.none_or]

/-- The recorded nodes depend on the first file of each path only. -/
theorem nodesOf_eq_of_sameFiles {files others : List SourceNode} (h : SameFiles files others) :
    nodesOf files = nodesOf others := by
  refine StringMap.ext_find? fun path => ?_
  rw [find?_nodesOf, find?_nodesOf]
  split
  · rfl
  · next hpath => exact h path hpath

/-! ### Inputs with the same files -/

/-- Where no two files share a path, being the first file at a path is being a file there. -/
theorem firstFile?_eq_some_iff {files : List SourceNode}
    (hdistinct : ((files.filter SourceNode.isFile).map fun n => Path.withSlashes n.path).Nodup)
    {path : String} {node : SourceNode} :
    firstFile? files path = some node ↔ node ∈ files ∧ isFileAt path node = true := by
  constructor
  · intro h
    exact ⟨List.mem_of_find?_eq_some h, List.find?_some h⟩
  · rintro ⟨hmem, hat⟩
    obtain ⟨first, hfirst⟩ := Option.isSome_iff_exists.1 (List.find?_isSome.2 ⟨node, hmem, hat⟩)
    have hfile : ∀ n ∈ files, isFileAt path n = true →
        n ∈ files.filter SourceNode.isFile ∧ Path.withSlashes n.path = path := by
      intro n hn hnat
      simp only [isFileAt, Bool.and_eq_true, beq_iff_eq] at hnat
      exact ⟨List.mem_filter.2 ⟨hn, hnat.1⟩, hnat.2⟩
    obtain ⟨hfirstMem, hfirstPath⟩ :=
      hfile first (List.mem_of_find?_eq_some hfirst) (List.find?_some hfirst)
    obtain ⟨hnodeMem, hnodePath⟩ := hfile node hmem hat
    -- the first file at the path and this one have the path in common
    have heq : first = node :=
      List.inj_on_of_nodup_map hdistinct hfirstMem hnodeMem (hfirstPath.trans hnodePath.symm)
    exact heq ▸ hfirst

/-- Where no path comes twice, the order of the files plays no part. -/
theorem SameFiles.of_perm {files others : List SourceNode} (hperm : files.Perm others)
    (hdistinct : ((files.filter SourceNode.isFile).map fun n => Path.withSlashes n.path).Nodup) :
    SameFiles files others := by
  have hdistinct' :
      ((others.filter SourceNode.isFile).map fun n => Path.withSlashes n.path).Nodup :=
    ((hperm.filter _).map _).nodup_iff.1 hdistinct
  intro path _
  refine Option.ext fun node => ?_
  rw [firstFile?_eq_some_iff hdistinct, firstFile?_eq_some_iff hdistinct', hperm.mem_iff]

/-- A node that an analysis passes over behind the nodes `before`. -/
def IsPassedOver (before : List SourceNode) (node : SourceNode) : Prop :=
  node.isFile = false ∨ Path.withSlashes node.path = "" ∨
    ∃ earlier ∈ before, earlier.isFile = true ∧
      Path.withSlashes earlier.path = Path.withSlashes node.path

/-- A node that is passed over may stand anywhere. -/
theorem SameFiles.of_insert {before after : List SourceNode} {node : SourceNode}
    (h : IsPassedOver before node) : SameFiles (before ++ after) (before ++ node :: after) := by
  intro path hpath
  rw [firstFile?, firstFile?, List.find?_append, List.find?_append, List.find?_cons]
  cases hat : isFileAt path node with
  | false => rfl
  | true =>
    -- only a repeated path is left, and then the search ends before it comes to the node
    simp only [isFileAt, Bool.and_eq_true, beq_iff_eq] at hat
    rcases h with hfile | hempty | ⟨earlier, hmem, hfile, hsame⟩
    · rw [hfile] at hat
      exact absurd hat.1 Bool.false_ne_true
    · exact absurd (hat.2.symm.trans hempty) hpath
    · have hearlier : isFileAt path earlier = true := by simp [isFileAt, hfile, hsame, hat.2]
      obtain ⟨first, hfirst⟩ :=
        Option.isSome_iff_exists.1 (List.find?_isSome.2 ⟨earlier, hmem, hearlier⟩)
      rw [hfirst, Option.some_or, Option.some_or]

end Project

/-- **The order of the input plays no part.** Two inputs in which the first file at every path is
the same one have the same outcome. This is so when one is a permutation of the other and no two
files share a path, and when a node is inserted anywhere that is no file, has no path, or has the
path of a file before it. -/
theorem outcome_eq_of_sameFiles (config : Config) :
    (∀ files others, Project.SameFiles files others →
      analyze config files = analyze config others) ∧
    (∀ files others : List SourceNode, files.Perm others →
      ((files.filter SourceNode.isFile).map fun n => Path.withSlashes n.path).Nodup →
      analyze config files = analyze config others) ∧
    ∀ (before after : List SourceNode) (node : SourceNode), Project.IsPassedOver before node →
      analyze config (before ++ after) = analyze config (before ++ node :: after) := by
  have hsame : ∀ files others, Project.SameFiles files others →
      analyze config files = analyze config others := by
    intro files others h
    rw [analyze, analyze, Project.ofFiles, Project.ofFiles, Project.nodesOf_eq_of_sameFiles h]
  refine ⟨hsame, fun files others hperm hdistinct => ?_, fun before after node h => ?_⟩
  · exact hsame _ _ (.of_perm hperm hdistinct)
  · exact hsame _ _ (.of_insert h)

/-- A program whose parts are given in either order, a symbol among them, the second time with a
later copy of one file under another spelling of its path. -/
theorem outcome_of_shuffled_program :
    let main : SourceNode := .file "src/main.ts" "import './part';"
    let part : SourceNode := .file "src/part.ts" "export const x = 1;"
    let symbol : SourceNode := { path := "src/part.ts", kind := .variableDef }
    let copy : SourceNode := { path := "src\\part.ts", content := some "" }
    analyze .default [main, symbol, part] = analyze .default [part, main, symbol] ∧
      analyze .default [part, main, symbol] = analyze .default [part, main, symbol, copy] := by
  intro main part symbol copy
  obtain ⟨-, hperm, hinsert⟩ := outcome_eq_of_sameFiles .default
  constructor
  · refine hperm _ _ ?_ ?_
    · decide
    · decide
  · exact hinsert [part, main, symbol] [] copy (.inr (.inr ⟨part, by simp, by decide, by decide⟩))

end DeadCode
