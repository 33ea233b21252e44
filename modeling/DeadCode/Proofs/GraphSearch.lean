import DeadCode.Proofs.GraphHistory

/-!
# DeadCode.Proofs.GraphSearch

What the searches in an import graph find is told by the calls that have built it. The edges are
those of the accepted calls, so `reachable` finds the ends of the chains of accepted edges that
start at a root, and `importersThrough` the files with an accepted edge to a path or to one that
exports its names again. Both are statements about the calls alone: neither the order of the search
nor the numbers of the files in the graph can be seen.

The roots of a search share what was visited (`explore_append`). As the set of reached files is that
of the chains, this sharing cannot be seen either: each root adds what it reaches by itself.
-/

namespace DeadCode

open Relation

/-! ### Edges -/

namespace GraphCall

/-- An accepted call has added an edge from one path to the other. -/
def Joins (calls : List GraphCall) (source target : String) : Prop :=
  ∃ kind, ⟨source, target, kind⟩ ∈ accepted calls

/-- An accepted call says that the second path exports names of the first again. -/
def ReExportedBy (calls : List GraphCall) (path exporter : String) : Prop :=
  ⟨exporter, path, .reExport⟩ ∈ accepted calls

end GraphCall

namespace ImportGraph

variable (calls : List GraphCall)

/-- A chain of imports in the graph is a chain of accepted edges. -/
theorem imports_ofCalls : (ofCalls calls).Imports = GraphCall.Joins calls := by
  funext source target
  rw [Imports, links_ofCalls, GraphCall.Joins, eq_iff_iff]
  constructor
  · intro h
    obtain ⟨l, hl, rfl, rfl⟩ := h
    exact ⟨l.kind, hl⟩
  · intro h
    obtain ⟨kind, hl⟩ := h
    exact ⟨_, hl, rfl, rfl⟩

theorem reExports_ofCalls :
    (ofCalls calls).ReExports = Function.swap (GraphCall.ReExportedBy calls) := by
  funext exporter path
  show (∃ l ∈ (ofCalls calls).links, l.source = exporter ∧ l.target = path ∧ l.kind = .reExport) =
    GraphCall.ReExportedBy calls path exporter
  rw [links_ofCalls, GraphCall.ReExportedBy, eq_iff_iff]
  constructor
  · intro h
    obtain ⟨l, hl, rfl, rfl, hkind⟩ := h
    rwa [← hkind]
  · intro hl
    exact ⟨_, hl, rfl, rfl, rfl⟩

/-! ### Reachable files -/

/-- The reachable files, with the graph told by its calls. -/
theorem mem_reachable_ofCalls {roots : List String} {path : String} :
    path ∈ (ofCalls calls).reachable roots ↔
      ∃ root ∈ roots, .file root ∈ calls ∧ ReflTransGen (GraphCall.Joins calls) root path := by
  rw [mem_reachable_iff, imports_ofCalls]
  simp only [mem_files_ofCalls]

end ImportGraph

theorem StringSet.mem_foldr_union {f : α → StringSet} {xs : List α} {x : String} :
    x ∈ (xs.map f).foldr (· ∪ ·) ∅ ↔ ∃ a ∈ xs, x ∈ f a := by
  induction xs with
  | nil => exact iff_of_false (not_mem_empty x) (by simp)
  | cons a xs ih =>
    rw [List.map_cons, List.foldr_cons, mem_union, ih]
    simp only [List.mem_cons, exists_eq_or_imp]

/-- After any calls, the reachable files are those at the end of a chain of accepted edges from a
root that was added. So it does not matter in which order the roots come and whether one of them
comes again, and together they reach what each of them reaches alone. -/
theorem reachable_after_calls (calls : List GraphCall) (roots : List String) :
    (∀ path, path ∈ (ImportGraph.ofCalls calls).reachable roots ↔
      ∃ root ∈ roots, .file root ∈ calls ∧ ReflTransGen (GraphCall.Joins calls) root path) ∧
    (∀ others : List String, (∀ root, root ∈ others ↔ root ∈ roots) →
      (ImportGraph.ofCalls calls).reachable others = (ImportGraph.ofCalls calls).reachable roots) ∧
    (ImportGraph.ofCalls calls).reachable roots =
      (roots.map fun root => (ImportGraph.ofCalls calls).reachable [root]).foldr (· ∪ ·) ∅ := by
  refine ⟨fun path => ImportGraph.mem_reachable_ofCalls calls, fun others hothers => ?_, ?_⟩
  · refine StringSet.ext_mem fun path => ?_
    simp only [ImportGraph.mem_reachable_ofCalls, hothers]
  · refine StringSet.ext_mem fun path => ?_
    simp only [StringSet.mem_foldr_union, ImportGraph.mem_reachable_ofCalls, List.mem_singleton,
      exists_eq_left]

/-- Calls with a cycle of imports, and with an edge that comes before the file at its end. -/
def circularCalls : List GraphCall := [
  .file "a.js", .file "b.js", .link ⟨"a.js", "b.js", .named⟩,
  .link ⟨"b.js", "a.js", .defaultExport⟩,
  .link ⟨"b.js", "c.js", .named⟩, .file "c.js"]

theorem reachable_after_circularCalls :
    (∀ root, root ∈ ["b.js", "d.js", "a.js"] ↔ root ∈ ["a.js", "b.js", "a.js", "d.js"]) ∧
      (ImportGraph.ofCalls circularCalls).reachable ["b.js", "d.js", "a.js"] =
        (ImportGraph.ofCalls circularCalls).reachable ["a.js", "b.js", "a.js", "d.js"] ∧
      "a.js" ∈ (ImportGraph.ofCalls circularCalls).reachable ["d.js", "b.js"] := by
  have hroots : ∀ root,
      root ∈ ["b.js", "d.js", "a.js"] ↔ root ∈ ["a.js", "b.js", "a.js", "d.js"] := by
    intro root
    simp only [List.mem_cons, List.not_mem_nil, or_false]
    tauto
  have hedge : GraphCall.Joins circularCalls "b.js" "a.js" := ⟨.defaultExport, by decide⟩
  exact ⟨hroots, (reachable_after_calls circularCalls _).2.1 _ hroots,
    ((reachable_after_calls circularCalls _).1 _).2 ⟨"b.js", by decide, by decide, .single hedge⟩⟩

/-! ### Importers through files that export again -/

/-- After any calls, the importers of a path are the other files with an accepted edge of any kind
to the path, or to the end of a chain of files of which each exports names of the one before it
again. -/
theorem importersThrough_after_calls (calls : List GraphCall) (path importer : String) :
    importer ∈ (ImportGraph.ofCalls calls).importersThrough path ↔
      importer ≠ path ∧ ∃ exporter, GraphCall.Joins calls importer exporter ∧
        ReflTransGen (GraphCall.ReExportedBy calls) path exporter := by
  rw [ImportGraph.mem_importersThrough_iff, ImportGraph.imports_ofCalls,
    ImportGraph.reExports_ofCalls]
  simp only [reflTransGen_swap]

end DeadCode
