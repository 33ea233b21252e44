import DeadCode.Graph.Basic
import DeadCode.Proofs.Explore
import DeadCode.Proofs.Fold
import Mathlib.Data.List.Basic

/-!
# DeadCode.Proofs.ImportGraph

The import graph as a relation between files. Inside, a graph has numbers for its files and edges
between numbers; from outside it is a list of paths, `files`, and a list of imports between them,
`links`. Every operation is described by what it does to these two, so that nothing behind this
module has to look at a number: adding a file or an edge adds a path or an import at the end, and
the neighbours of a path are the ends of its imports.

Because both ends of every edge are files of the graph, the searches are exact: `reachable` gives
the files at the end of a chain of imports, and `importersThrough` those that import a file or one
that exports its names again. The first search goes from number to number. It follows the chains of
paths, because a number and its path have the same neighbours (`imports_iff_successors`).
-/

namespace DeadCode

open Relation

/-! ### Imports as relations -/

namespace Usage

/-- Some import leads from one file to the other. -/
def Imports (u : Usage) (source target : String) : Prop :=
  ∃ e ∈ u.edges, e.source = source ∧ e.target = target

/-- One file exports names of the other again. -/
def ReExports (u : Usage) (source target : String) : Prop :=
  ∃ e ∈ u.edges, e.source = source ∧ e.target = target ∧ e.kind = .reExport

end Usage

namespace ImportGraph

/-- The import that an edge stands for. -/
def link? (g : ImportGraph) (a : Arc) : Option Link := do
  return ⟨← g.files[a.source]?, ← g.files[a.target]?, a.kind⟩

/-- The imports that the edges stand for. -/
def links (g : ImportGraph) : List Link := g.arcs.filterMap g.link?

/-- Some edge leads from one file to the other. -/
def Imports (g : ImportGraph) (source target : String) : Prop :=
  ∃ l ∈ g.links, l.source = source ∧ l.target = target

/-- Some edge says that one file exports names of the other again. -/
def ReExports (g : ImportGraph) (source target : String) : Prop :=
  ∃ l ∈ g.links, l.source = source ∧ l.target = target ∧ l.kind = .reExport

variable {g : ImportGraph}

theorem ReExports.imports {a b : String} (h : g.ReExports a b) : g.Imports a b := by
  obtain ⟨l, hl, hs, ht, -⟩ := h
  exact ⟨l, hl, hs, ht⟩

/-! ### Paths and numbers -/

/-- The files are the paths with a number. -/
theorem mem_files_iff {path : String} : path ∈ g.files ↔ ∃ n, g.index? path = some n := by
  simp only [List.mem_iff_getElem?, index?_eq_some_iff]

theorem index?_eq_none_iff {path : String} : g.index? path = none ↔ path ∉ g.files := by
  rw [mem_files_iff, ← Option.isSome_iff_exists, Option.not_isSome_iff_eq_none]

theorem contains_iff {path : String} : g.contains path = true ↔ path ∈ g.files := by
  rw [contains, StringMap.contains, Option.isSome_iff_exists, mem_files_iff]
  rfl

/-- No path has two numbers. -/
theorem eq_of_getElem?_eq_some {path : String} {n m : Nat} (hn : g.files[n]? = some path)
    (hm : g.files[m]? = some path) : n = m :=
  Option.some.inj ((index?_eq_some_iff.2 hn).symm.trans (index?_eq_some_iff.2 hm))

/-- The number of a path is its first place, and there is no other. -/
theorem index?_eq_idxOf? (g : ImportGraph) (path : String) :
    g.index? path = g.files.idxOf? path := by
  refine Option.ext fun n => ?_
  rw [index?_eq_some_iff, List.idxOf?_eq_some_iff]
  constructor
  · intro h
    obtain ⟨hlt, hpath⟩ := List.getElem?_eq_some_iff.1 h
    refine ⟨hlt, hpath, fun j hj hsame => ?_⟩
    -- a second place would be a second number
    have hsecond : g.files[j]? = some path :=
      List.getElem?_eq_some_iff.2 ⟨Nat.lt_trans hj hlt, hsame⟩
    exact Nat.ne_of_lt hj (eq_of_getElem?_eq_some hsecond h)
  · intro h
    obtain ⟨hlt, hpath, -⟩ := h
    exact List.getElem?_eq_some_iff.2 ⟨hlt, hpath⟩

/-- An edge stands for an import exactly when the import becomes the edge. -/
theorem link?_eq_some_iff {a : Arc} {link : Link} :
    g.link? a = some link ↔ g.arc? link = some a := by
  obtain ⟨source, target, kind⟩ := link
  rw [arc?_eq_some_iff]
  simp only [link?, Option.bind_eq_bind, Option.bind_eq_some_iff, pure, Option.some.injEq,
    Link.mk.injEq]
  constructor
  · intro h
    obtain ⟨_, hsource, _, htarget, rfl, rfl, hkind⟩ := h
    exact ⟨hsource, htarget, hkind⟩
  · intro h
    obtain ⟨hsource, htarget, hkind⟩ := h
    exact ⟨source, hsource, target, htarget, rfl, rfl, hkind⟩

theorem mem_links_iff {link : Link} : link ∈ g.links ↔ ∃ a ∈ g.arcs, g.arc? link = some a := by
  simp only [links, List.mem_filterMap, link?_eq_some_iff]

/-- Every edge stands for an import. -/
theorem exists_link?_of_mem {a : Arc} (ha : a ∈ g.arcs) : ∃ link, g.link? a = some link := by
  obtain ⟨hsource, htarget⟩ := g.arcs_lt a ha
  refine ⟨⟨g.files[a.source], g.files[a.target], a.kind⟩, link?_eq_some_iff.2 ?_⟩
  exact arc?_eq_some_iff.2
    ⟨List.getElem?_eq_getElem hsource, List.getElem?_eq_getElem htarget, rfl⟩

/-- No edge is lost when edges are told as imports. -/
theorem length_links (g : ImportGraph) : g.links.length = g.linkCount :=
  List.filterMap_length_eq_length.2 fun _ ha =>
    Option.isSome_iff_exists.2 (exists_link?_of_mem ha)

/-- Both ends of an import are files of the graph. -/
theorem ends_mem_files {link : Link} (h : link ∈ g.links) :
    link.source ∈ g.files ∧ link.target ∈ g.files := by
  obtain ⟨a, -, ha⟩ := mem_links_iff.1 h
  obtain ⟨hsource, htarget, -⟩ := arc?_eq_some_iff.1 ha
  exact ⟨List.mem_of_getElem? hsource, List.mem_of_getElem? htarget⟩

theorem source_mem_files {a b : String} (h : g.Imports a b) : a ∈ g.files := by
  obtain ⟨l, hl, rfl, -⟩ := h
  exact (ends_mem_files hl).1

theorem target_mem_files {a b : String} (h : g.Imports a b) : b ∈ g.files := by
  obtain ⟨l, hl, -, rfl⟩ := h
  exact (ends_mem_files hl).2

/-! ### Building -/

/-- A new file is put behind the others. -/
theorem files_addFile (g : ImportGraph) (path : String) :
    (g.addFile path).files = Arrival.add g.files path := by
  unfold addFile
  split
  · next n hn => exact (if_pos (mem_files_iff.2 ⟨n, hn⟩)).symm
  · next hnone => exact (if_neg (index?_eq_none_iff.1 hnone)).symm

@[simp]
theorem mem_files_addFile {path x : String} :
    x ∈ (g.addFile path).files ↔ x ∈ g.files ∨ x = path := by
  rw [files_addFile, Arrival.mem_add]

/-- A new file changes the import of no edge, because it is put behind the others. -/
@[simp]
theorem links_addFile (g : ImportGraph) (path : String) : (g.addFile path).links = g.links := by
  unfold addFile
  split
  · rfl
  · refine List.filterMap_congr fun a ha => ?_
    obtain ⟨hsource, htarget⟩ := g.arcs_lt a ha
    simp only [link?, List.getElem?_append_left hsource, List.getElem?_append_left htarget]

/-- An edge is accepted when both of its ends are files of the graph. -/
theorem accepts_iff {link : Link} :
    g.accepts link = true ↔ link.source ∈ g.files ∧ link.target ∈ g.files := by
  rw [accepts, Option.isSome_iff_exists, mem_files_iff, mem_files_iff]
  constructor
  · intro h
    obtain ⟨a, ha⟩ := h
    obtain ⟨hsource, htarget, -⟩ := arc?_eq_some_iff.1 ha
    exact ⟨⟨_, index?_eq_some_iff.2 hsource⟩, ⟨_, index?_eq_some_iff.2 htarget⟩⟩
  · intro h
    obtain ⟨⟨n, hsource⟩, m, htarget⟩ := h
    exact ⟨⟨n, m, link.kind⟩,
      arc?_eq_some_iff.2 ⟨index?_eq_some_iff.1 hsource, index?_eq_some_iff.1 htarget, rfl⟩⟩

/-- An edge that is not accepted changes nothing. -/
theorem addLink_of_not_accepts {link : Link} (h : g.accepts link = false) :
    g.addLink link = g := by
  unfold addLink
  split
  · rfl
  · next a ha =>
    rw [accepts, ha] at h
    cases h

@[simp]
theorem files_addLink (link : Link) : (g.addLink link).files = g.files := by
  unfold addLink
  split <;> rfl

/-- An accepted edge is put behind the others. -/
theorem links_addLink_of_accepts {link : Link} (h : g.accepts link = true) :
    (g.addLink link).links = g.links ++ [link] := by
  unfold addLink
  split
  · next hnone =>
    rw [accepts, hnone] at h
    cases h
  · next a ha =>
    have hlast : [a].filterMap g.link? = [link] :=
      List.filterMap_cons_some (link?_eq_some_iff.2 ha)
    exact List.filterMap_append.trans (congrArg (g.links ++ ·) hlast)

/-! ### The graph of what is known about imports -/

/-- The edge of an import. -/
def linkOf (e : ImportEdge) : Link := ⟨e.source, e.target, e.kind⟩

/-- The graph with one more import and the files at its ends. -/
def addImport (g : ImportGraph) (e : ImportEdge) : ImportGraph :=
  ((g.addFile e.source).addFile e.target).addLink (linkOf e)

theorem ofUsage_eq (paths : List String) (u : Usage) :
    ofUsage paths u = u.edges.foldl addImport (paths.foldl addFile empty) := rfl

theorem mem_files_addImport {e : ImportEdge} {x : String} :
    x ∈ (g.addImport e).files ↔ x ∈ g.files ∨ x = e.source ∨ x = e.target := by
  simp [addImport, or_assoc]

/-- The ends of an import are files by the time its edge is added, so the edge is accepted. -/
theorem links_addImport (g : ImportGraph) (e : ImportEdge) :
    (g.addImport e).links = g.links ++ [linkOf e] := by
  have h : ((g.addFile e.source).addFile e.target).accepts (linkOf e) = true := by
    simp [accepts_iff, linkOf]
  rw [addImport, links_addLink_of_accepts h, links_addFile, links_addFile]

/-- Imports add their edges in turn, and none is left out. -/
theorem links_foldl_addImport (g : ImportGraph) (es : List ImportEdge) :
    (es.foldl addImport g).links = g.links ++ es.map linkOf := by
  induction es generalizing g with
  | nil => simp
  | cons e es ih =>
    rw [List.foldl_cons, ih, links_addImport, List.map_cons, List.append_assoc,
      List.singleton_append]

theorem mem_files_foldl_addImport {es : List ImportEdge} {x : String} (hx : x ∈ g.files) :
    x ∈ (es.foldl addImport g).files :=
  List.foldlRecOn (motive := (x ∈ ·.files)) es addImport hx fun _ hfile _ _ =>
    mem_files_addImport.2 (.inl hfile)

theorem mem_files_foldl_addFile {paths : List String} {x : String} :
    x ∈ (paths.foldl addFile g).files ↔ x ∈ g.files ∨ x ∈ paths := by
  rw [foldl_iff addFile (P := (x ∈ ·.files)) fun _ _ => mem_files_addFile]
  simp only [exists_eq_right']

theorem links_foldl_addFile (paths : List String) :
    (paths.foldl addFile g).links = g.links :=
  foldl_frame addFile links links_addFile paths g

variable {paths : List String} {u : Usage}

theorem links_ofUsage : (ofUsage paths u).links = u.edges.map linkOf := by
  rw [ofUsage_eq, links_foldl_addImport, links_foldl_addFile]
  rfl

theorem mem_files_ofUsage {x : String} (hx : x ∈ paths) : x ∈ (ofUsage paths u).files :=
  mem_files_foldl_addImport (mem_files_foldl_addFile.2 (.inr hx))

/-- The edges of the graph are those of the imports. -/
theorem exists_link_ofUsage {P : Link → Prop} :
    (∃ l ∈ (ofUsage paths u).links, P l) ↔ ∃ e ∈ u.edges, P (linkOf e) := by
  rw [links_ofUsage]
  constructor
  · intro h
    obtain ⟨l, hl, hP⟩ := h
    obtain ⟨e, he, rfl⟩ := List.mem_map.1 hl
    exact ⟨e, he, hP⟩
  · intro h
    obtain ⟨e, he, hP⟩ := h
    exact ⟨linkOf e, List.mem_map_of_mem he, hP⟩

/-- The graph has the imports that are known. -/
theorem imports_ofUsage : (ofUsage paths u).Imports = u.Imports := by
  funext a b
  exact propext exists_link_ofUsage

theorem reExports_ofUsage : (ofUsage paths u).ReExports = u.ReExports := by
  funext a b
  exact propext exists_link_ofUsage

/-! ### Neighbours -/

theorem mem_successors {n m : Nat} :
    m ∈ g.successors n ↔ ∃ a ∈ g.arcs, a.source = n ∧ a.target = m := by
  simp only [successors, List.mem_map, List.mem_filter, decide_eq_true_eq, and_assoc]

/-- A number has the neighbours of its path. -/
theorem imports_iff_successors {n : Nat} {x y : String} (hx : g.files[n]? = some x) :
    g.Imports x y ↔ ∃ m ∈ g.successors n, g.files[m]? = some y := by
  constructor
  · intro h
    obtain ⟨l, hl, rfl, rfl⟩ := h
    obtain ⟨a, ha, harc⟩ := mem_links_iff.1 hl
    obtain ⟨hsource, htarget, -⟩ := arc?_eq_some_iff.1 harc
    have hnumber : a.source = n := eq_of_getElem?_eq_some hsource hx
    exact ⟨a.target, mem_successors.2 ⟨a, ha, hnumber, rfl⟩, htarget⟩
  · intro h
    obtain ⟨m, hm, hy⟩ := h
    obtain ⟨a, ha, rfl, rfl⟩ := mem_successors.1 hm
    refine ⟨⟨x, y, a.kind⟩, mem_links_iff.2 ⟨a, ha, ?_⟩, rfl, rfl⟩
    exact arc?_eq_some_iff.2 ⟨hx, hy, rfl⟩

theorem mem_predecessors {n : Nat} {source : String} {kind : EdgeKind} :
    (source, kind) ∈ g.predecessors n ↔
      ∃ a ∈ g.arcs, a.target = n ∧ g.files[a.source]? = some source ∧ a.kind = kind := by
  simp only [predecessors, List.mem_filterMap, List.mem_filter, decide_eq_true_eq,
    Option.map_eq_some_iff, Prod.mk.injEq, and_assoc]
  refine exists_congr fun a => and_congr_right fun _ => and_congr_right fun _ => ?_
  constructor
  · intro h
    obtain ⟨_, hsource, rfl, hkind⟩ := h
    exact ⟨hsource, hkind⟩
  · intro h
    exact ⟨source, h.1, rfl, h.2⟩

/-- The predecessors of a number are the sources of the edges to its path. -/
theorem mem_predecessors_iff_mem_links {n : Nat} {path source : String} {kind : EdgeKind}
    (hpath : g.index? path = some n) :
    (source, kind) ∈ g.predecessors n ↔ Link.mk source path kind ∈ g.links := by
  rw [mem_predecessors, mem_links_iff]
  refine exists_congr fun a => and_congr_right fun _ => ?_
  have htarget : g.files[a.target]? = some path ↔ a.target = n := by
    rw [← index?_eq_some_iff, hpath, Option.some.injEq, eq_comm]
  rw [arc?_eq_some_iff, htarget]
  exact and_left_comm

theorem mem_all (kind : EdgeKind) : kind ∈ EdgeKind.all := by
  cases kind <;> simp [EdgeKind.all]

/-- The importers of a file are the sources of the edges to it, with the kinds of these. -/
theorem mem_importers {path source : String} {kind : EdgeKind} :
    (source, kind) ∈ g.importers path ↔ Link.mk source path kind ∈ g.links := by
  unfold importers
  split
  · next hnone =>
    exact iff_of_false List.not_mem_nil fun hlink =>
      index?_eq_none_iff.1 hnone (ends_mem_files hlink).2
  · next n hn =>
    rw [← mem_predecessors_iff_mem_links hn]
    simp only [List.mem_flatMap, List.mem_map, List.mem_filter, decide_eq_true_eq,
      Prod.mk.injEq, ← StringSet.mem_iff, StringSet.mem_ofList]
    constructor
    · intro h
      obtain ⟨s, -, k, ⟨-, hfound⟩, rfl, rfl⟩ := h
      exact hfound
    · intro hfound
      exact ⟨source, ⟨_, hfound, rfl⟩, kind, ⟨mem_all kind, hfound⟩, rfl, rfl⟩

/-- The paths of the importers, whatever the kind of import. -/
theorem exists_mem_importers_iff {path source : String} :
    source ∈ (g.importers path).map (·.1) ↔ g.Imports source path := by
  rw [List.mem_map]
  constructor
  · intro h
    obtain ⟨importer, hmem, rfl⟩ := h
    exact ⟨_, mem_importers.1 hmem, rfl, rfl⟩
  · intro h
    obtain ⟨l, hl, rfl, rfl⟩ := h
    exact ⟨(l.source, l.kind), mem_importers.2 hl, rfl⟩

theorem importers_eq_nil_iff {path : String} :
    g.importers path = [] ↔ ∀ source, ¬ g.Imports source path := by
  rw [← List.map_eq_nil_iff, List.eq_nil_iff_forall_not_mem]
  exact forall_congr' fun source => not_congr exists_mem_importers_iff

theorem mem_reExporters {a b : String} : b ∈ g.reExporters a ↔ g.ReExports b a := by
  simp only [reExporters, List.mem_map, List.mem_filter, decide_eq_true_eq]
  constructor
  · intro h
    obtain ⟨importer, ⟨hmem, hkind⟩, rfl⟩ := h
    exact ⟨_, mem_importers.1 hmem, rfl, rfl, hkind⟩
  · intro h
    obtain ⟨l, hl, rfl, rfl, hkind⟩ := h
    exact ⟨(l.source, l.kind), ⟨mem_importers.2 hl, hkind⟩, rfl⟩

/-! ### Reachability -/

/-- A chain of numbers is a chain of paths. -/
theorem exists_chain_iff {n : Nat} {x y : String} (hx : g.files[n]? = some x) :
    (∃ m, ReflTransGen (fun a b => b ∈ g.successors a) n m ∧ g.files[m]? = some y) ↔
      ReflTransGen g.Imports x y := by
  constructor
  · intro h
    obtain ⟨m, hchain, hy⟩ := h
    induction hchain generalizing y with
    | refl => exact Option.some.inj (hx.symm.trans hy) ▸ .refl
    | @tail b c _ hstep ih =>
      -- an edge starts at `b`, so `b` is the number of a file
      obtain ⟨a, ha, rfl, -⟩ := mem_successors.1 hstep
      have hb := List.getElem?_eq_getElem (g.arcs_lt a ha).1
      exact (ih hb).tail ((imports_iff_successors hb).2 ⟨c, hstep, hy⟩)
  · intro hchain
    induction hchain with
    | refl => exact ⟨n, .refl, hx⟩
    | tail _ hstep ih =>
      obtain ⟨m, hchain, hm⟩ := ih
      obtain ⟨m', hnext, hm'⟩ := (imports_iff_successors hm).1 hstep
      exact ⟨m', hchain.tail hnext, hm'⟩

/-- The reachable files are those at the end of a chain of imports that starts at a known root. -/
theorem mem_reachable_iff {roots : List String} {x : String} :
    x ∈ g.reachable roots ↔ ∃ r ∈ roots, r ∈ g.files ∧ ReflTransGen g.Imports r x := by
  have hknown : ∀ n, ∀ m ∈ g.successors n, m ∈ List.range g.files.length := by
    intro n m hm
    obtain ⟨a, ha, -, rfl⟩ := mem_successors.1 hm
    exact List.mem_range.2 (g.arcs_lt a ha).2
  rw [reachable, StringSet.mem_ofList, List.mem_filterMap]
  simp only [mem_explore_iff_of_closed hknown, List.mem_filterMap]
  constructor
  · intro h
    obtain ⟨m, ⟨n, ⟨root, hroot, hn⟩, -, hchain⟩, hx⟩ := h
    exact ⟨root, hroot, mem_files_iff.2 ⟨n, hn⟩,
      (exists_chain_iff (index?_eq_some_iff.1 hn)).1 ⟨m, hchain, hx⟩⟩
  · intro h
    obtain ⟨root, hroot, hfile, hchain⟩ := h
    obtain ⟨n, hn⟩ := mem_files_iff.1 hfile
    have hplace := index?_eq_some_iff.1 hn
    obtain ⟨m, hnumbers, hx⟩ := (exists_chain_iff hplace).2 hchain
    have hlt := (List.getElem?_eq_some_iff.1 hplace).1
    exact ⟨m, ⟨n, ⟨root, hroot, hn⟩, List.mem_range.2 hlt, hnumbers⟩, hx⟩

/-- The search for importers goes against the edges, from the file to those that export its names
again; every importer of a file on the way counts, except the file itself. -/
theorem mem_importersThrough_iff {path x : String} :
    x ∈ g.importersThrough path ↔
      x ≠ path ∧ ∃ h, g.Imports x h ∧ ReflTransGen g.ReExports h path := by
  have hknown : ∀ a, ∀ b ∈ g.reExporters a, b ∈ g.files :=
    fun a b hb => source_mem_files (mem_reExporters.1 hb).imports
  have hthrough : ∀ h, h ∈ explore g.reExporters g.files [path] ↔
      path ∈ g.files ∧ ReflTransGen g.ReExports h path := by
    intro h
    rw [mem_explore_iff_of_closed hknown, ← reflTransGen_swap]
    simp only [List.mem_singleton, exists_eq_left, mem_reExporters, Function.swap_def]
  rw [importersThrough, StringSet.mem_erase, StringSet.mem_ofList]
  simp only [List.mem_flatMap, exists_mem_importers_iff, hthrough]
  refine and_congr_right fun _ => ⟨?_, ?_⟩
  · intro hx
    obtain ⟨h, ⟨-, hchain⟩, himports⟩ := hx
    exact ⟨h, himports, hchain⟩
  · intro hx
    obtain ⟨h, himports, hchain⟩ := hx
    -- the file is known because the last edge before it ends there
    have hpath : path ∈ g.files := by
      rcases hchain.cases_tail with rfl | ⟨c, -, hc⟩
      · exact target_mem_files himports
      · exact target_mem_files hc.imports
    exact ⟨h, ⟨hpath, hchain⟩, himports⟩

end ImportGraph

end DeadCode
