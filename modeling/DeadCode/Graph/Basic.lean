import DeadCode.Graph.Explore
import DeadCode.Ordered.StringMap
import DeadCode.Usage.Basic

/-!
# DeadCode.Graph.Basic

The import graph of a project. Its nodes are files, numbered in the order in which they were added;
its edges point from the number of the importing file to that of the imported one. Several edges may
join the same two files.

A graph is kept in two stores: the paths by number, and the number of each path. That the stores are
in step and that edges join files of the graph belongs to the type, so no graph can be built in
which a path and its number disagree.
-/

namespace DeadCode

/-- An import between two files, as an edge of the graph is told from outside. -/
structure Link where
  source : String
  target : String
  kind : EdgeKind
  deriving DecidableEq

/-- An edge between the numbers of two files. -/
structure Arc where
  source : Nat
  target : Nat
  kind : EdgeKind
  deriving DecidableEq

/-- The files of a project and the imports between them. -/
structure ImportGraph where
  /-- The paths of the files by their numbers. -/
  files : List String
  /-- The numbers of the files by their paths. -/
  numbers : StringMap Nat
  arcs : List Arc
  numbers_iff (path : String) (n : Nat) : numbers.find? path = some n ↔ files[n]? = some path
  arcs_lt : ∀ a ∈ arcs, a.source < files.length ∧ a.target < files.length

namespace ImportGraph

/-! ### Files -/

/-- The graph without files. -/
def empty : ImportGraph where
  files := []
  numbers := .empty
  arcs := []
  numbers_iff := by simp
  arcs_lt := by simp

instance : Inhabited ImportGraph := ⟨empty⟩

/-- The number of a file. -/
def index? (g : ImportGraph) (path : String) : Option Nat := g.numbers.find? path

/-- Whether `path` is a file of the graph. -/
def contains (g : ImportGraph) (path : String) : Bool := g.numbers.contains path

theorem index?_eq_some_iff {g : ImportGraph} {path : String} {n : Nat} :
    g.index? path = some n ↔ g.files[n]? = some path :=
  g.numbers_iff path n

/-- The place behind all others is that of the last value. -/
theorem getElem?_concat_eq_some_iff {files : List String} {path x : String} {n : Nat} :
    (files ++ [path])[n]? = some x ↔ files[n]? = some x ∨ n = files.length ∧ x = path := by
  rw [List.getElem?_append]
  split
  · next hlt => exact ⟨.inl, fun h => h.resolve_right fun h => Nat.ne_of_lt hlt h.1⟩
  · next hge =>
    have hnone : files[n]? = none := List.getElem?_eq_none (Nat.le_of_not_lt hge)
    rw [hnone, List.getElem?_singleton]
    have hplace : n - files.length = 0 ↔ n = files.length := by omega
    simp [hplace, eq_comm]

/-- A new path takes the next number in both stores. -/
theorem find?_insert_iff {g : ImportGraph} {path : String} (hnew : g.index? path = none)
    (x : String) (n : Nat) :
    (g.numbers.insert path g.files.length).find? x = some n ↔
      (g.files ++ [path])[n]? = some x := by
  rw [StringMap.find?_insert, getElem?_concat_eq_some_iff, ← g.numbers_iff]
  by_cases hx : x = path
  · subst hx
    have hold : g.numbers.find? x = none := hnew
    simp [hold, eq_comm]
  · simp [hx]

/-- The graph with one more file; a file that is there already stays where it is. -/
def addFile (g : ImportGraph) (path : String) : ImportGraph :=
  match hpath : g.index? path with
  | some _ => g
  | none =>
    { files := g.files ++ [path]
      numbers := g.numbers.insert path g.files.length
      arcs := g.arcs
      numbers_iff := find?_insert_iff hpath
      arcs_lt := fun a ha => by
        have hlt := g.arcs_lt a ha
        rw [List.length_append, List.length_singleton]
        omega }

/-! ### Edges -/

/-- The edge of an import, if both of its ends are files of the graph. -/
def arc? (g : ImportGraph) (link : Link) : Option Arc := do
  return ⟨← g.index? link.source, ← g.index? link.target, link.kind⟩

theorem arc?_eq_some_iff {g : ImportGraph} {link : Link} {a : Arc} :
    g.arc? link = some a ↔ g.files[a.source]? = some link.source ∧
      g.files[a.target]? = some link.target ∧ a.kind = link.kind := by
  obtain ⟨source, target, kind⟩ := a
  simp only [arc?, Option.bind_eq_bind, Option.bind_eq_some_iff, index?_eq_some_iff, pure,
    Option.some.injEq, Arc.mk.injEq]
  constructor
  · intro h
    obtain ⟨_, hsource, _, htarget, rfl, rfl, hkind⟩ := h
    exact ⟨hsource, htarget, hkind.symm⟩
  · intro h
    obtain ⟨hsource, htarget, hkind⟩ := h
    exact ⟨source, hsource, target, htarget, rfl, rfl, hkind.symm⟩

/-- Whether both ends of an edge are files of the graph. -/
def accepts (g : ImportGraph) (link : Link) : Bool := (g.arc? link).isSome

/-- The graph with one more edge, if it accepts it. -/
def addLink (g : ImportGraph) (link : Link) : ImportGraph :=
  match harc : g.arc? link with
  | none => g
  | some a =>
    { g with
      arcs := g.arcs ++ [a]
      arcs_lt := fun b hb => by
        rcases List.mem_append.1 hb with hb | hb
        · exact g.arcs_lt b hb
        · obtain ⟨hsource, htarget, -⟩ := arc?_eq_some_iff.1 harc
          rw [List.mem_singleton.1 hb]
          exact ⟨(List.getElem?_eq_some_iff.1 hsource).1, (List.getElem?_eq_some_iff.1 htarget).1⟩ }

/-- The graph of some files and of the imports that are known. -/
def ofUsage (paths : List String) (usage : Usage) : ImportGraph :=
  usage.edges.foldl
    (fun g e => ((g.addFile e.source).addFile e.target).addLink ⟨e.source, e.target, e.kind⟩)
    (paths.foldl addFile empty)

/-- The number of files. -/
def fileCount (g : ImportGraph) : Nat := g.files.length

/-- The number of edges. -/
def linkCount (g : ImportGraph) : Nat := g.arcs.length

/-- Whether there is no file. -/
def isEmpty (g : ImportGraph) : Bool := g.files.isEmpty

/-! ### Neighbours -/

/-- The numbers of the files that the file `n` imports. -/
def successors (g : ImportGraph) (n : Nat) : List Nat :=
  (g.arcs.filter (·.source = n)).map (·.target)

/-- The files that `path` imports, in increasing order. -/
def imports (g : ImportGraph) (path : String) : List String :=
  match g.index? path with
  | none => []
  | some n => (StringSet.ofList ((g.successors n).filterMap (g.files[·]?))).toList

/-- The files with an edge to the file `n`, and the kinds of the edges. -/
def predecessors (g : ImportGraph) (n : Nat) : List (String × EdgeKind) :=
  (g.arcs.filter (·.target = n)).filterMap fun a => (g.files[a.source]?).map (·, a.kind)

/-- The files that import `path`, in increasing order, each once for every kind of its imports. -/
def importers (g : ImportGraph) (path : String) : List (String × EdgeKind) :=
  match g.index? path with
  | none => []
  | some n =>
    let found := g.predecessors n
    (StringSet.ofList (found.map (·.1))).toList.flatMap fun source =>
      (EdgeKind.all.filter fun kind => decide ((source, kind) ∈ found)).map (source, ·)

/-! ### Reachability -/

/-- Every file that a chain of imports reaches from one of the roots, the roots included. Roots that
are no files of the graph are passed over. -/
def reachable (g : ImportGraph) (roots : List String) : StringSet :=
  let visited := explore g.successors (List.range g.files.length) (roots.filterMap g.index?)
  .ofList (visited.filterMap (g.files[·]?))

/-- The files that export names of `path` again. -/
def reExporters (g : ImportGraph) (path : String) : List String :=
  ((g.importers path).filter (·.2 = .reExport)).map (·.1)

/-- The other files that import `path`, or a file that exports its names again, through any number
of files. -/
def importersThrough (g : ImportGraph) (path : String) : StringSet :=
  let through := explore g.reExporters g.files [path]
  StringSet.erase (.ofList (through.flatMap fun file => (g.importers file).map (·.1))) path

end ImportGraph

end DeadCode
