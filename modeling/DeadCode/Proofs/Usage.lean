import DeadCode.Language.Basic
import DeadCode.Proofs.Fold
import DeadCode.Proofs.StringMap

/-!
# DeadCode.Proofs.Usage

What a `Usage` knows after each of its operations, and from that what a language knows about a
project: its entry points, the edges of all imports of its files, and the exports of its files.
Every used file is explained by one of the first two (`Usage.IsExplained`), which each operation
that a language uses keeps true.
-/

namespace DeadCode

namespace Usage

/-- Every used file is an entry point or the target of an import, and all of those are used. -/
def IsExplained (u : Usage) : Prop :=
  ∀ x, x ∈ u.usedFiles ↔ x ∈ u.entryPoints ∨ ∃ e ∈ u.edges, e.target = x

variable {u v : Usage}

/-! ### Single operations -/

theorem isExplained_empty : empty.IsExplained := by
  intro x
  simp [empty]

theorem IsExplained.addEntryPoint (hu : u.IsExplained) (path : String) :
    (u.addEntryPoint path).IsExplained := by
  intro x
  have hx := hu x
  simp only [Usage.addEntryPoint, StringSet.mem_insert, hx, or_assoc]

/-- A new edge explains why its target is used. -/
theorem IsExplained.addEdge (hu : u.IsExplained) (e : ImportEdge) : (u.addEdge e).IsExplained := by
  intro x
  have hx := hu x
  simp only [Usage.addEdge, StringSet.mem_insert, Arrival.mem_add, hx]
  constructor
  · intro hx
    rcases hx with rfl | h | ⟨e', he', rfl⟩
    · exact .inr ⟨e, .inr rfl, rfl⟩
    · exact .inl h
    · exact .inr ⟨e', .inl he', rfl⟩
  · intro hx
    rcases hx with h | ⟨e', he' | rfl, rfl⟩
    · exact .inr (.inl h)
    · exact .inr (.inr ⟨e', he', rfl⟩)
    · exact .inl rfl

theorem IsExplained.setExports (hu : u.IsExplained) (path : String) (symbols : List String) :
    (u.setExports path symbols).IsExplained := by
  unfold Usage.setExports
  split
  · exact hu
  · exact hu

/-- What explains the parts of a merge explains the merge. -/
theorem IsExplained.merge (hu : u.IsExplained) (hv : v.IsExplained) :
    (u.merge v).IsExplained := by
  intro x
  simp only [Usage.merge, StringSet.mem_union, Arrival.mem_addAll, hu x, hv x]
  constructor
  · intro hx
    rcases hx with ((h | ⟨e, he, rfl⟩) | h | ⟨e, he, rfl⟩) | h
    · exact .inl (.inl h)
    · exact .inr ⟨e, .inl he, rfl⟩
    · exact .inl (.inr h)
    · exact .inr ⟨e, .inr he, rfl⟩
    · exact .inl (.inr h)
  · intro hx
    rcases hx with (h | h) | ⟨e, he | he, rfl⟩
    · exact .inl (.inl (.inl h))
    · exact .inr h
    · exact .inl (.inl (.inr ⟨e, he, rfl⟩))
    · exact .inl (.inr (.inr ⟨e, he, rfl⟩))

@[simp]
theorem entryPoints_setExports (path : String) (symbols : List String) :
    (u.setExports path symbols).entryPoints = u.entryPoints := by
  unfold setExports
  split <;> rfl

@[simp]
theorem edges_setExports (path : String) (symbols : List String) :
    (u.setExports path symbols).edges = u.edges := by
  unfold setExports
  split <;> rfl

theorem find?_exports_setExports (path : String) (symbols : List String) (x : String) :
    (u.setExports path symbols).exports.find? x =
      if x = path ∧ symbols ≠ [] then some symbols else u.exports.find? x := by
  unfold setExports
  by_cases h : symbols = []
  · simp [h]
  · simp [h, StringMap.find?_insert]

@[simp]
theorem mem_entryPoints_merge {x : String} :
    x ∈ (u.merge v).entryPoints ↔ x ∈ u.entryPoints ∨ x ∈ v.entryPoints :=
  StringSet.mem_union

@[simp]
theorem mem_edges_merge {e : ImportEdge} : e ∈ (u.merge v).edges ↔ e ∈ u.edges ∨ e ∈ v.edges :=
  Arrival.mem_addAll

theorem find?_exports_merge (x : String) :
    (u.merge v).exports.find? x = (v.exports.find? x).or (u.exports.find? x) :=
  StringMap.find?_insertMany_toList u.exports v.exports x

/-! ### Runs of one operation -/

theorem mem_entryPoints_foldl_addEntryPoint {paths : List String} {x : String} :
    x ∈ (paths.foldl addEntryPoint u).entryPoints ↔ x ∈ u.entryPoints ∨ x ∈ paths := by
  rw [foldl_iff addEntryPoint (P := (x ∈ ·.entryPoints)) fun _ _ =>
    StringSet.mem_insert.trans or_comm]
  simp only [exists_eq_right']

theorem mem_usedFiles_foldl_addEntryPoint {paths : List String} {x : String} :
    x ∈ (paths.foldl addEntryPoint u).usedFiles ↔ x ∈ u.usedFiles ∨ x ∈ paths := by
  rw [foldl_iff addEntryPoint (P := (x ∈ ·.usedFiles)) fun _ _ =>
    StringSet.mem_insert.trans or_comm]
  simp only [exists_eq_right']

theorem edges_foldl_addEntryPoint (paths : List String) :
    (paths.foldl addEntryPoint u).edges = u.edges :=
  foldl_frame addEntryPoint edges (fun _ _ => rfl) paths u

theorem exports_foldl_addEntryPoint (paths : List String) :
    (paths.foldl addEntryPoint u).exports = u.exports :=
  foldl_frame addEntryPoint exports (fun _ _ => rfl) paths u

theorem IsExplained.foldl_addEntryPoint (hu : u.IsExplained) (paths : List String) :
    (paths.foldl Usage.addEntryPoint u).IsExplained :=
  List.foldlRecOn paths Usage.addEntryPoint hu fun _ h path _ => h.addEntryPoint path

theorem mem_usedFiles_foldl_markUsed {paths : List String} {x : String} :
    x ∈ (paths.foldl markUsed u).usedFiles ↔ x ∈ u.usedFiles ∨ x ∈ paths := by
  rw [foldl_iff markUsed (P := (x ∈ ·.usedFiles)) fun _ _ => StringSet.mem_insert.trans or_comm]
  simp only [exists_eq_right']

theorem edges_foldl_markUsed (paths : List String) :
    (paths.foldl markUsed u).edges = u.edges :=
  foldl_frame markUsed edges (fun _ _ => rfl) paths u

theorem exports_foldl_markUsed (paths : List String) :
    (paths.foldl markUsed u).exports = u.exports :=
  foldl_frame markUsed exports (fun _ _ => rfl) paths u

theorem entryPoints_foldl_markUsed (paths : List String) :
    (paths.foldl markUsed u).entryPoints = u.entryPoints :=
  foldl_frame markUsed entryPoints (fun _ _ => rfl) paths u

theorem mem_edges_foldl_addEdge {es : List ImportEdge} {e : ImportEdge} :
    e ∈ (es.foldl addEdge u).edges ↔ e ∈ u.edges ∨ e ∈ es := by
  rw [foldl_iff addEdge (P := (e ∈ ·.edges)) fun _ _ => Arrival.mem_add]
  simp only [exists_eq_right']

theorem entryPoints_foldl_addEdge (es : List ImportEdge) :
    (es.foldl addEdge u).entryPoints = u.entryPoints :=
  foldl_frame addEdge entryPoints (fun _ _ => rfl) es u

theorem exports_foldl_addEdge (es : List ImportEdge) :
    (es.foldl addEdge u).exports = u.exports :=
  foldl_frame addEdge exports (fun _ _ => rfl) es u

theorem IsExplained.foldl_addEdge (hu : u.IsExplained) (es : List ImportEdge) :
    (es.foldl Usage.addEdge u).IsExplained :=
  List.foldlRecOn es Usage.addEdge hu fun _ h e _ => h.addEdge e

end Usage

/-! ### What a file adds -/

/-- The names that a file exports; a file that has not been scanned exports none. -/
def Project.exportsOf (p : Project) (path : String) : List String :=
  ((p.module? path).map ModuleSyntax.exportNames).getD []

namespace Language

/-- The edges of all imports of a file. -/
def edgesIn (l : Language) (p : Project) (path : String) : List ImportEdge :=
  ((p.module? path).map fun m => m.imports.flatMap (l.edgesOf p.resolver path)).getD []

variable {l : Language} {p : Project} {u : Usage}

theorem addFile_eq (l : Language) (p : Project) (u : Usage) (path : String) :
    l.addFile p u path =
      ((l.edgesIn p path).foldl Usage.addEdge u).setExports path (p.exportsOf path) := by
  unfold addFile edgesIn Project.exportsOf
  cases p.module? path with
  | none => rfl
  | some m => rfl

/-- The edges of a file, one for each of its imports and each file that it resolves to, itself
apart. -/
theorem mem_edgesIn {path : String} {e : ImportEdge} :
    e ∈ l.edgesIn p path ↔ ∃ m, p.module? path = some m ∧ ∃ i ∈ m.imports,
      e.source = path ∧ e.target ∈ l.resolve p.resolver path i ∧ e.target ≠ path ∧
        e.names = i.exportedNames ∧ e.kind = i.edgeKind := by
  unfold edgesIn
  cases p.module? path with
  | none => simp
  | some m =>
    simp only [Option.map_some, Option.getD_some, List.mem_flatMap, Option.some.injEq,
      exists_eq_left', edgesOf, List.mem_map, List.mem_filter, decide_eq_true_eq]
    refine exists_congr fun i => and_congr_right fun _ => ⟨?_, ?_⟩
    · intro h
      obtain ⟨t, ⟨ht, hne⟩, rfl⟩ := h
      exact ⟨rfl, ht, hne, rfl, rfl⟩
    · intro h
      obtain ⟨hs, ht, hne, hn, hk⟩ := h
      refine ⟨e.target, ⟨ht, hne⟩, ?_⟩
      rw [← hs, ← hn, ← hk]

theorem entryPoints_foldl_addFile (paths : List String) :
    (paths.foldl (l.addFile p) u).entryPoints = u.entryPoints := by
  refine foldl_frame (l.addFile p) Usage.entryPoints (fun u path => ?_) paths u
  rw [addFile_eq, Usage.entryPoints_setExports, Usage.entryPoints_foldl_addEdge]

theorem mem_edges_foldl_addFile {paths : List String} {e : ImportEdge} :
    e ∈ (paths.foldl (l.addFile p) u).edges ↔
      e ∈ u.edges ∨ ∃ path ∈ paths, e ∈ l.edgesIn p path := by
  refine foldl_iff (l.addFile p) (P := (e ∈ ·.edges)) (fun u path => ?_) paths u
  rw [addFile_eq, Usage.edges_setExports, Usage.mem_edges_foldl_addEdge]

/-- The exports of a file are set when the file itself is added, always to the same names. -/
theorem find?_exports_foldl_addFile {paths : List String} {x : String} :
    (paths.foldl (l.addFile p) u).exports.find? x =
      if x ∈ paths ∧ p.exportsOf x ≠ [] then some (p.exportsOf x) else u.exports.find? x := by
  induction paths generalizing u with
  | nil => simp
  | cons path paths ih =>
    rw [List.foldl_cons, ih, addFile_eq, Usage.find?_exports_setExports,
      Usage.exports_foldl_addEdge]
    by_cases hx : x = path
    · subst hx
      by_cases hs : p.exportsOf x = [] <;> simp [hs]
    · simp [hx]

theorem isExplained_foldl_addFile (hu : u.IsExplained) (paths : List String) :
    (paths.foldl (l.addFile p) u).IsExplained := by
  refine List.foldlRecOn paths (l.addFile p) hu fun u hu path _ => ?_
  rw [addFile_eq]
  exact (hu.foldl_addEdge _).setExports _ _

/-! ### What a language knows -/

variable (l p)

theorem isExplained_usage : (l.usage p).IsExplained :=
  isExplained_foldl_addFile (Usage.isExplained_empty.foldl_addEntryPoint _) _

theorem mem_entryPoints_usage {x : String} :
    x ∈ (l.usage p).entryPoints ↔ x ∈ l.entryPoints p := by
  rw [usage, entryPoints_foldl_addFile, Usage.mem_entryPoints_foldl_addEntryPoint]
  simp [Usage.empty]

theorem mem_edges_usage {e : ImportEdge} :
    e ∈ (l.usage p).edges ↔ ∃ path ∈ p.paths, l.owns path = true ∧ e ∈ l.edgesIn p path := by
  rw [usage, mem_edges_foldl_addFile, Usage.edges_foldl_addEntryPoint]
  simp [Usage.empty, and_assoc]

/-- The exports that are recorded of a file are those of its module, if it has any. -/
theorem find?_exports_usage {x : String} {symbols : List String} :
    (l.usage p).exports.find? x = some symbols ↔
      x ∈ p.paths ∧ l.owns x = true ∧ p.exportsOf x = symbols ∧ symbols ≠ [] := by
  rw [usage, find?_exports_foldl_addFile, Usage.exports_foldl_addEntryPoint]
  split
  · next h =>
    obtain ⟨hx, hs⟩ := h
    obtain ⟨hpath, howns⟩ := List.mem_filter.1 hx
    rw [Option.some.injEq]
    exact ⟨fun e => ⟨hpath, howns, e, e ▸ hs⟩, fun h => h.2.2.1⟩
  · next h =>
    refine ⟨fun e => by simp [Usage.empty] at e, fun ⟨hpath, howns, e, hs⟩ => ?_⟩
    exact absurd ⟨List.mem_filter.2 ⟨hpath, howns⟩, e ▸ hs⟩ h

end Language

end DeadCode
