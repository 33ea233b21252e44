import DeadCode.Proofs.ByteOrder
import DeadCode.Proofs.Merge
import Mathlib.Data.Finset.Card

/-!
# DeadCode.Proofs.GraphHistory

What an import graph shows is told by the calls that have built it. The paths that were added are
its files, numbered in the order in which they first arrived. A call that adds an edge is accepted
when both ends were added before it; the edges are those of the accepted calls, and the importers
and imports of a file list their ends in increasing order.
-/

namespace DeadCode

/-! ### Calls -/

/-- A call that adds to a graph. -/
inductive GraphCall where
  | file (path : String)
  | link (link : Link)
  deriving DecidableEq

namespace GraphCall

/-- The path that a call adds. -/
def path? : GraphCall → Option String
  | file path => some path
  | link _ => none

/-- The paths that were added, repetitions included. -/
def paths (calls : List GraphCall) : List String := calls.filterMap path?

/-- How many paths had been added when `path` was added for the first time. -/
def rank (calls : List GraphCall) (path : String) : Nat :=
  ((paths calls).takeWhile (· ≠ path)).toFinset.card

/-- The edge that the call at place `i` adds. Both of its ends must have been added before. -/
def acceptedAt? (calls : List GraphCall) (i : Nat) : Option Link :=
  match calls[i]? with
  | some (link l) =>
    if file l.source ∈ calls.take i ∧ file l.target ∈ calls.take i then some l else none
  | _ => none

/-- The edges of the accepted calls. -/
def accepted (calls : List GraphCall) : List Link :=
  (List.range calls.length).filterMap (acceptedAt? calls)

/-- A path was added exactly when some call adds it. -/
theorem mem_paths {calls : List GraphCall} {path : String} :
    path ∈ paths calls ↔ file path ∈ calls := by
  rw [paths, List.mem_filterMap]
  constructor
  · intro h
    obtain ⟨call, hcall, hpath⟩ := h
    cases call with
    | file p => exact Option.some.inj hpath ▸ hcall
    | link l => cases hpath
  · intro h
    exact ⟨file path, h, rfl⟩

/-- Later calls do not change what an earlier one has added. -/
theorem acceptedAt?_append {calls : List GraphCall} (more : List GraphCall) {i : Nat}
    (hi : i < calls.length) : acceptedAt? (calls ++ more) i = acceptedAt? calls i := by
  rw [acceptedAt?, acceptedAt?, List.getElem?_append_left hi, List.take_append_of_le_length hi.le]

/-- One more call adds the edge that it is accepted with, if any. -/
theorem accepted_concat (calls : List GraphCall) (call : GraphCall) :
    accepted (calls ++ [call]) =
      accepted calls ++ (acceptedAt? (calls ++ [call]) calls.length).toList := by
  have hearlier : (List.range calls.length).filterMap (acceptedAt? (calls ++ [call])) =
      accepted calls :=
    List.filterMap_congr fun i hi => acceptedAt?_append [call] (List.mem_range.1 hi)
  rw [accepted, List.length_append, List.length_singleton, List.range_succ, List.filterMap_append,
    hearlier]
  cases h : acceptedAt? (calls ++ [call]) calls.length <;> simp [h]

/-- Whether the last call is accepted depends on the calls before it. -/
theorem acceptedAt?_length (calls : List GraphCall) (call : GraphCall) :
    acceptedAt? (calls ++ [call]) calls.length =
      match call with
      | file _ => none
      | link l => if file l.source ∈ calls ∧ file l.target ∈ calls then some l else none := by
  rw [acceptedAt?, List.getElem?_concat_length, List.take_left]
  cases call <;> rfl

end GraphCall

/-! ### Graphs -/

namespace Arrival

variable {α : Type} [DecidableEq α]

/-- The values that have arrived are counted without repetitions. -/
theorem length_addAll_nil (xs : List α) : (addAll [] xs).length = xs.toFinset.card := by
  have hmem : (addAll [] xs).toFinset = xs.toFinset := by
    ext x
    simp
  rw [← hmem, List.toFinset_card_of_nodup (nodup_addAll List.nodup_nil xs)]

/-- A value stands behind those that arrived before its first arrival. -/
theorem idxOf?_addAll_nil {xs : List α} {x : α} (hx : x ∈ xs) :
    (addAll [] xs).idxOf? x = some (xs.takeWhile (· ≠ x)).toFinset.card := by
  obtain ⟨before, after, rfl, hbefore⟩ := List.eq_append_cons_of_mem hx
  have hnew : x ∉ addAll [] before := by simpa using hbefore
  have hplace : addAll [] (before ++ x :: after) = addAll [] before ++
      x :: (after.filter (· ∉ addAll [] before ++ [x])).eraseDups := by
    rw [addAll_append, addAll_cons, add_of_not_mem hnew, addAll_eq_append_eraseDups,
      List.append_assoc, List.singleton_append]
  have hfirst : (before ++ x :: after).takeWhile (· ≠ x) = before := by
    rw [List.takeWhile_append_of_pos fun y hy => by simpa using ne_of_mem_of_not_mem hy hbefore]
    simp
  rw [hplace, hfirst, ← length_addAll_nil, List.idxOf?_eq_some_iff]
  refine ⟨by simp, by simp, fun j hj => ?_⟩
  rw [List.getElem_append_left hj]
  exact fun heq => hnew (heq ▸ List.getElem_mem hj)

end Arrival

namespace ImportGraph

/-- The graph after a call. -/
def call (g : ImportGraph) : GraphCall → ImportGraph
  | .file path => g.addFile path
  | .link l => g.addLink l

/-- The graph that calls build from nothing. -/
def ofCalls (calls : List GraphCall) : ImportGraph := calls.foldl call empty

theorem ofCalls_concat (calls : List GraphCall) (c : GraphCall) :
    ofCalls (calls ++ [c]) = (ofCalls calls).call c := by
  rw [ofCalls, List.foldl_append]
  rfl

/-- The files stand in the order of their first arrival. The induction is on the last call. -/
theorem files_ofCalls (calls : List GraphCall) :
    (ofCalls calls).files = Arrival.addAll [] (GraphCall.paths calls) := by
  induction calls using List.reverseRecOn with
  | nil => rfl
  | append_singleton calls c ih =>
    rw [ofCalls_concat, GraphCall.paths, List.filterMap_append, Arrival.addAll_append,
      ← GraphCall.paths, ← ih]
    cases c with
    | file path => exact files_addFile _ path
    | link l => exact files_addLink l

theorem mem_files_ofCalls {calls : List GraphCall} {path : String} :
    path ∈ (ofCalls calls).files ↔ .file path ∈ calls := by
  rw [files_ofCalls, Arrival.mem_addAll, GraphCall.mem_paths]
  simp

/-- An edge is accepted when both of its ends were added before. -/
theorem accepts_ofCalls_iff {calls : List GraphCall} {l : Link} :
    (ofCalls calls).accepts l = true ↔ .file l.source ∈ calls ∧ .file l.target ∈ calls := by
  rw [accepts_iff, mem_files_ofCalls, mem_files_ofCalls]

/-- The edges are those of the accepted calls, in the order of the calls. -/
theorem links_ofCalls (calls : List GraphCall) :
    (ofCalls calls).links = GraphCall.accepted calls := by
  induction calls using List.reverseRecOn with
  | nil => rfl
  | append_singleton calls c ih =>
    rw [ofCalls_concat, GraphCall.accepted_concat, GraphCall.acceptedAt?_length, ← ih]
    cases c with
    | file path => simp [call]
    | link l =>
      by_cases h : (ofCalls calls).accepts l = true
      · simp only [call, links_addLink_of_accepts h, if_pos (accepts_ofCalls_iff.1 h),
          Option.toList_some]
      · simp only [call, addLink_of_not_accepts (Bool.eq_false_iff.2 h),
          if_neg (accepts_ofCalls_iff.not.1 h), Option.toList_none, List.append_nil]

/-! ### Neighbours -/

/-- The order of importers: by the bytes of their paths, then by the kind of import. -/
def ImporterBefore (a b : String × EdgeKind) : Prop :=
  utf8Bytes a.1 < utf8Bytes b.1 ∨ a.1 = b.1 ∧ a.2.rank < b.2.rank

theorem pairwise_rank_all : EdgeKind.all.Pairwise (·.rank < ·.rank) := by decide

/-- The importers of a file are listed in increasing order and without repetitions. -/
theorem pairwise_importers (g : ImportGraph) (path : String) :
    (g.importers path).Pairwise ImporterBefore := by
  unfold importers
  split
  · exact .nil
  · refine List.pairwise_flatMap.2 ⟨fun source _ => ?_, ?_⟩
    · refine List.pairwise_map.2 ((pairwise_rank_all.filter _).imp fun {a b} hlt => ?_)
      exact .inr ⟨rfl, hlt⟩
    · refine (StringSet.sorted _).imp fun {a b} hlt x hx y hy => ?_
      obtain ⟨_, -, rfl⟩ := List.mem_map.1 hx
      obtain ⟨_, -, rfl⟩ := List.mem_map.1 hy
      exact .inl (utf8Bytes_lt_iff.2 hlt)

theorem pairwise_imports (g : ImportGraph) (path : String) :
    (g.imports path).Pairwise (utf8Bytes · < utf8Bytes ·) := by
  unfold imports
  split
  · exact .nil
  · exact (StringSet.sorted _).imp utf8Bytes_lt_iff.2

/-- The imports of a file are the ends of the edges from it. -/
theorem mem_imports {g : ImportGraph} {path target : String} :
    target ∈ g.imports path ↔ ∃ kind, Link.mk path target kind ∈ g.links := by
  have himports : target ∈ g.imports path ↔ g.Imports path target := by
    unfold imports
    split
    · next hnone =>
      exact iff_of_false List.not_mem_nil fun himport =>
        index?_eq_none_iff.1 hnone (source_mem_files himport)
    · next n hn =>
      rw [← StringSet.mem_iff, StringSet.mem_ofList, List.mem_filterMap,
        imports_iff_successors (index?_eq_some_iff.1 hn)]
  rw [himports]
  constructor
  · intro h
    obtain ⟨l, hl, rfl, rfl⟩ := h
    exact ⟨l.kind, hl⟩
  · intro h
    obtain ⟨kind, hl⟩ := h
    exact ⟨_, hl, rfl, rfl⟩

/-- What a graph shows is what the calls say. -/
structure Records (g : ImportGraph) (calls : List GraphCall) : Prop where
  index? (path : String) :
    g.index? path = if .file path ∈ calls then some (GraphCall.rank calls path) else none
  contains (path : String) : g.contains path = decide (.file path ∈ calls)
  fileCount : g.fileCount = (GraphCall.paths calls).toFinset.card
  accepts (l : Link) : g.accepts l = decide (.file l.source ∈ calls ∧ .file l.target ∈ calls)
  linkCount : g.linkCount = (GraphCall.accepted calls).length
  importers_sorted (path : String) : (g.importers path).Pairwise ImporterBefore
  mem_importers (path source : String) (kind : EdgeKind) :
    (source, kind) ∈ g.importers path ↔ ⟨source, path, kind⟩ ∈ GraphCall.accepted calls
  imports_sorted (path : String) : (g.imports path).Pairwise (utf8Bytes · < utf8Bytes ·)
  mem_imports (path target : String) :
    target ∈ g.imports path ↔ ∃ kind, ⟨path, target, kind⟩ ∈ GraphCall.accepted calls

/-- Every observer of a graph, told by the calls. -/
theorem records_ofCalls (calls : List GraphCall) : (ofCalls calls).Records calls where
  index? path := by
    rw [index?_eq_idxOf?]
    split
    · next h =>
      rw [files_ofCalls, Arrival.idxOf?_addAll_nil (GraphCall.mem_paths.2 h)]
      rfl
    · next h => exact List.idxOf?_eq_none_iff.2 (mem_files_ofCalls.not.2 h)
  contains path := by
    rw [Bool.eq_iff_iff, decide_eq_true_eq, contains_iff, mem_files_ofCalls]
  fileCount := by rw [ImportGraph.fileCount, files_ofCalls, Arrival.length_addAll_nil]
  accepts l := by rw [Bool.eq_iff_iff, decide_eq_true_eq, accepts_ofCalls_iff]
  linkCount := by rw [← length_links, links_ofCalls]
  importers_sorted := pairwise_importers _
  mem_importers path source kind := by rw [ImportGraph.mem_importers, links_ofCalls]
  imports_sorted := pairwise_imports _
  mem_imports path target := by rw [ImportGraph.mem_imports, links_ofCalls]

end ImportGraph

/-- After any calls, the graph shows the paths and the accepted edges that they name. Adding a path
gives the place of its first arrival, and an edge that is not accepted changes nothing. -/
theorem graph_records_calls (calls : List GraphCall) :
    (ImportGraph.ofCalls calls).Records calls ∧
      (∀ path, ((ImportGraph.ofCalls calls).addFile path).index? path =
        some (GraphCall.rank (calls ++ [.file path]) path)) ∧
      ∀ l, (ImportGraph.ofCalls calls).accepts l = false →
        (ImportGraph.ofCalls calls).addLink l = ImportGraph.ofCalls calls := by
  refine ⟨ImportGraph.records_ofCalls calls, fun path => ?_, fun l hrejected => ?_⟩
  · have hadded : (ImportGraph.ofCalls calls).addFile path =
        ImportGraph.ofCalls (calls ++ [.file path]) :=
      (ImportGraph.ofCalls_concat calls (.file path)).symm
    rw [hadded, (ImportGraph.records_ofCalls _).index?, if_pos (by simp)]
  · exact ImportGraph.addLink_of_not_accepts hrejected

/-- Calls with a path that comes again, an edge that comes too early, the same edge twice, and one
from a file to itself. -/
def repeatedCalls : List GraphCall := [
  .file "b.js", .link ⟨"b.js", "a.js", .dynamic⟩, .file "a.js", .file "b.js",
  .link ⟨"b.js", "a.js", .reExport⟩, .link ⟨"b.js", "a.js", .named⟩,
  .link ⟨"b.js", "a.js", .named⟩, .link ⟨"a.js", "a.js", .require⟩]

theorem graph_records_repeatedCalls :
    (ImportGraph.ofCalls repeatedCalls).accepts ⟨"a.js", "c.js", .named⟩ = false ∧
      (ImportGraph.ofCalls repeatedCalls).addLink ⟨"a.js", "c.js", .named⟩ =
        ImportGraph.ofCalls repeatedCalls ∧
      (ImportGraph.ofCalls repeatedCalls).linkCount = 4 ∧
      ((ImportGraph.ofCalls repeatedCalls).addFile "a.js").index? "a.js" = some 1 := by
  have hrejected :
      (ImportGraph.ofCalls repeatedCalls).accepts ⟨"a.js", "c.js", .named⟩ = false := by
    decide
  obtain ⟨hrecords, hplace, hunchanged⟩ := graph_records_calls repeatedCalls
  exact ⟨hrejected, hunchanged _ hrejected, hrecords.linkCount, hplace "a.js"⟩

end DeadCode
