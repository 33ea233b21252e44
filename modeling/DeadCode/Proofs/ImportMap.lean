import DeadCode.Proofs.Liveness

/-!
# DeadCode.Proofs.ImportMap

The import map of a `Usage` repeats its edges. A file has an entry when it imports something, and
the entry lists the targets of its edges in the order in which the edges were found, each target
once (`Usage.IsMapped`). No operation looks at the edges to bring the map up to date; that the two
stay in step rests on `addAll_filterMap`: it makes no difference whether values are collected from
edges with or without repetitions.
-/

namespace DeadCode

/-! ### Values in order of arrival -/

namespace Arrival

variable {α β : Type} [DecidableEq α] [DecidableEq β]

theorem add_of_mem {l : List α} {x : α} (h : x ∈ l) : add l x = l := if_pos h

theorem add_of_not_mem {l : List α} {x : α} (h : x ∉ l) : add l x = l ++ [x] := if_neg h

@[simp]
theorem addAll_nil (l : List α) : addAll l [] = l := rfl

theorem addAll_cons (l xs : List α) (x : α) : addAll l (x :: xs) = addAll (add l x) xs := rfl

theorem addAll_append (l xs ys : List α) : addAll l (xs ++ ys) = addAll (addAll l xs) ys :=
  List.foldl_append

theorem addAll_concat (l xs : List α) (x : α) : addAll l (xs ++ [x]) = add (addAll l xs) x :=
  addAll_append l xs [x]

theorem addAll_eq_nil_iff {l xs : List α} : addAll l xs = [] ↔ l = [] ∧ xs = [] := by
  simp only [List.eq_nil_iff_forall_not_mem, mem_addAll, not_or, forall_and]

/-- Values that are all new are put behind one another. -/
theorem addAll_of_nodup {l xs : List α} (h : (l ++ xs).Nodup) : addAll l xs = l ++ xs := by
  induction xs generalizing l with
  | nil => rw [addAll_nil, List.append_nil]
  | cons x xs ih =>
    have hx : x ∉ l := fun hx => (List.nodup_append.1 h).2.2 x hx x (List.mem_cons_self ..) rfl
    rw [List.append_cons] at h
    rw [addAll_cons, add_of_not_mem hx, ih h, ← List.append_cons]

/-- Adding what has arrived elsewhere is adding the arrivals themselves. -/
theorem addAll_add (l m : List α) (x : α) : addAll l (add m x) = add (addAll l m) x := by
  by_cases hx : x ∈ m
  · have hmem : x ∈ addAll l m := mem_addAll.2 (.inr hx)
    rw [add_of_mem hx, add_of_mem hmem]
  · rw [add_of_not_mem hx, addAll_concat]

/-- Repetitions may be dropped before values are added. -/
theorem addAll_addAll (l m xs : List α) : addAll l (addAll m xs) = addAll (addAll l m) xs := by
  induction xs generalizing m with
  | nil => rfl
  | cons x xs ih => rw [addAll_cons, ih, addAll_add, addAll_cons]

/-- A repeated element gives a value that has arrived already. -/
theorem addAll_filterMap_add (g : α → Option β) (l : List α) (x : α) :
    addAll [] ((add l x).filterMap g) = addAll (addAll [] (l.filterMap g)) (g x).toList := by
  by_cases hx : x ∈ l
  · rw [add_of_mem hx]
    cases hg : g x with
    | none => rfl
    | some y =>
      -- the element is not added a second time, but its value is: it has arrived with the first
      have hy : y ∈ addAll [] (l.filterMap g) :=
        mem_addAll.2 (.inr (List.mem_filterMap.2 ⟨x, hx, hg⟩))
      rw [Option.toList_some, addAll_cons, addAll_nil, add_of_mem hy]
  · rw [add_of_not_mem hx, List.filterMap_append, addAll_append]
    cases hg : g x with
    | none => simp [hg]
    | some y => simp [hg]

/-- The values of elements without repetitions are the values of all of them. -/
theorem addAll_filterMap (g : α → Option β) (l xs : List α) :
    addAll [] ((addAll l xs).filterMap g) =
      addAll (addAll [] (l.filterMap g)) (xs.filterMap g) := by
  induction xs generalizing l with
  | nil => rfl
  | cons x xs ih =>
    rw [addAll_cons, ih, addAll_filterMap_add, ← addAll_append]
    cases hg : g x with
    | none => simp [hg]
    | some y => simp [hg]

end Arrival

namespace Usage

/-! ### Usages that the operations build -/

/-- What comes about from nothing by the operations on usages. -/
inductive IsBuilt : Usage → Prop
  | empty : IsBuilt empty
  | addEntryPoint {u : Usage} (path : String) : IsBuilt u → IsBuilt (u.addEntryPoint path)
  | markUsed {u : Usage} (path : String) : IsBuilt u → IsBuilt (u.markUsed path)
  | addEdge {u : Usage} (e : ImportEdge) : IsBuilt u → IsBuilt (u.addEdge e)
  | setExports {u : Usage} (path : String) (symbols : List String) :
      IsBuilt u → IsBuilt (u.setExports path symbols)
  | merge {u v : Usage} : IsBuilt u → IsBuilt v → IsBuilt (u.merge v)

/-! ### The map and the edges -/

/-- The target of an edge, if the edge starts at `source`. -/
def targetFrom? (source : String) (e : ImportEdge) : Option String :=
  if e.source = source then some e.target else none

/-- The targets of the edges that start at a file, in the order of the edges and each once. -/
def targetsFrom (u : Usage) (source : String) : List String :=
  Arrival.addAll [] (u.edges.filterMap (targetFrom? source))

/-- The import map lists for every file the targets of its edges, and has no entry for a file
without any. -/
structure IsMapped (u : Usage) : Prop where
  targets_eq : ∀ x, (u.importMap.find? x).getD [] = u.targetsFrom x
  ne_nil : ∀ x, u.importMap.find? x ≠ some []

variable {u v : Usage}

/-- The targets of a file are the ends of its imports. -/
theorem mem_targetsFrom {source target : String} :
    target ∈ u.targetsFrom source ↔ u.Imports source target := by
  simp only [targetsFrom, Arrival.mem_addAll, List.mem_filterMap, targetFrom?, Imports,
    Option.ite_none_right_eq_some, Option.some.injEq, List.not_mem_nil, false_or]

theorem find?_addTargets (imports : StringMap (List String)) (source : String)
    (targets : List String) (x : String) :
    (addTargets imports source targets).find? x =
      if x = source then some (Arrival.addAll ((imports.find? source).getD []) targets)
      else imports.find? x :=
  StringMap.find?_alter imports source _ x

theorem addTargets_ne_nil {imports : StringMap (List String)}
    (h : ∀ x, imports.find? x ≠ some []) (source : String) {targets : List String}
    (htargets : targets ≠ []) (x : String) :
    (addTargets imports source targets).find? x ≠ some [] := by
  rw [find?_addTargets]
  split
  · intro hnil
    exact htargets (Arrival.addAll_eq_nil_iff.1 (Option.some.inj hnil)).2
  · exact h x

/-- Entries with distinct keys each add to the entry of their own key. -/
theorem getD_find?_foldl_addTargets {entries : List (String × List String)}
    (hkeys : (entries.map Prod.fst).Nodup) (imports : StringMap (List String)) (x : String) :
    ((entries.foldl (fun m e => addTargets m e.1 e.2) imports).find? x).getD [] =
      Arrival.addAll ((imports.find? x).getD []) ((entries.lookup x).getD []) := by
  induction entries generalizing imports with
  | nil => rfl
  | cons e entries ih =>
    obtain ⟨key, targets⟩ := e
    obtain ⟨hkey, hkeys⟩ := List.nodup_cons.1 hkeys
    rw [List.foldl_cons, ih hkeys, find?_addTargets, List.lookup_cons]
    by_cases hx : x = key
    · subst hx
      -- no later entry adds to this key again
      have hnone : entries.lookup x = none :=
        Option.not_isSome_iff_eq_none.1 fun h => hkey (StringMap.lookup_isSome_iff_mem_keys.1 h)
      simp [hnone]
    · simp [hx, beq_eq_false_iff_ne.2 hx]

/-- A merge adds the targets of the second map to those of the first. -/
theorem getD_find?_importMap_merge (x : String) :
    ((u.merge v).importMap.find? x).getD [] =
      Arrival.addAll ((u.importMap.find? x).getD []) ((v.importMap.find? x).getD []) :=
  getD_find?_foldl_addTargets (StringMap.nodup_of_sorted v.importMap.sorted) u.importMap x

/-- An edge adds its target to those of its source. -/
theorem targetsFrom_addEdge (e : ImportEdge) (x : String) :
    (u.addEdge e).targetsFrom x =
      Arrival.addAll (u.targetsFrom x) (targetFrom? x e).toList :=
  Arrival.addAll_filterMap_add (targetFrom? x) u.edges e

theorem targetsFrom_merge (x : String) :
    (u.merge v).targetsFrom x = Arrival.addAll (u.targetsFrom x) (v.targetsFrom x) := by
  rw [targetsFrom, merge, Arrival.addAll_filterMap, targetsFrom, targetsFrom, Arrival.addAll_addAll,
    Arrival.addAll_nil]

theorem isMapped_empty : empty.IsMapped where
  targets_eq _ := rfl
  ne_nil _ := nofun

/-- An edge is entered into the map when it is recorded, so the map still repeats the edges. -/
theorem IsMapped.addEdge (hu : u.IsMapped) (e : ImportEdge) : (u.addEdge e).IsMapped where
  targets_eq x := by
    rw [targetsFrom_addEdge, ← hu.targets_eq x, Usage.addEdge, find?_addTargets, targetFrom?]
    by_cases hx : x = e.source
    · simp [hx]
    · simp [hx, Ne.symm hx]
  ne_nil := addTargets_ne_nil hu.ne_nil e.source (by simp)

theorem IsMapped.setExports (hu : u.IsMapped) (path : String) (symbols : List String) :
    (u.setExports path symbols).IsMapped := by
  unfold Usage.setExports
  split
  · exact hu
  · exact ⟨hu.targets_eq, hu.ne_nil⟩

/-- The map of a merge is the merge of the maps. -/
theorem IsMapped.merge (hu : u.IsMapped) (hv : v.IsMapped) : (u.merge v).IsMapped where
  targets_eq x := by
    rw [getD_find?_importMap_merge, hu.targets_eq, hv.targets_eq, targetsFrom_merge]
  ne_nil := by
    refine List.foldlRecOn (motive := fun m => ∀ x, StringMap.find? m x ≠ some []) _ _ hu.ne_nil ?_
    rintro imports himports ⟨source, targets⟩ hentry
    refine addTargets_ne_nil himports source ?_
    rintro rfl
    exact hv.ne_nil source (StringMap.mem_toList.1 hentry)

/-- Whatever the operations build, the map repeats the edges. -/
theorem IsBuilt.isMapped (h : u.IsBuilt) : u.IsMapped := by
  induction h with
  | empty => exact isMapped_empty
  | addEntryPoint _ _ ih => exact ⟨ih.targets_eq, ih.ne_nil⟩
  | markUsed _ _ ih => exact ⟨ih.targets_eq, ih.ne_nil⟩
  | addEdge e _ ih => exact ih.addEdge e
  | setExports path symbols _ ih => exact ih.setExports path symbols
  | merge _ _ ihu ihv => exact ihu.merge ihv

/-- What stands in the map are imports. -/
theorem IsMapped.imports_of_find? (hu : u.IsMapped) {source : String} {targets : List String}
    (h : u.importMap.find? source = some targets) :
    targets ≠ [] ∧ ∀ target ∈ targets, u.Imports source target := by
  refine ⟨fun hnil => hu.ne_nil source (hnil ▸ h), fun target htarget => ?_⟩
  have heq := hu.targets_eq source
  rw [h, Option.getD_some] at heq
  exact mem_targetsFrom.1 (heq ▸ htarget)

end Usage

/-! ### Surveys -/

/-- What a language finds out is built by the operations of a usage. -/
theorem Language.isBuilt_usage (l : Language) (p : Project) : (l.usage p).IsBuilt := by
  refine List.foldlRecOn _ _ ?_ fun u hu path _ => ?_
  · exact List.foldlRecOn _ _ .empty fun u hu path _ => hu.addEntryPoint path
  · rw [Language.addFile_eq]
    exact (List.foldlRecOn _ _ hu fun u hu e _ => hu.addEdge e).setExports _ _

/-- So is all that is known about a project. -/
theorem Survey.isBuilt_usage (p : Project) : (Survey.ofProject p).usage.IsBuilt := by
  have hlanguages : (Survey.languageUsage p).IsBuilt :=
    List.foldlRecOn _ _ .empty fun u hu l _ => hu.merge (l.isBuilt_usage p)
  have hentries : (Survey.entryUsage p).IsBuilt := by
    refine List.foldlRecOn _ _ ?_ fun u hu path _ => hu.addEntryPoint path
    exact List.foldlRecOn _ _ hlanguages fun u hu path _ => hu.addEntryPoint path
  rw [Survey.usage_eq_foldl_markUsed]
  exact List.foldlRecOn _ _ hentries fun u hu path _ => hu.markUsed path

end DeadCode
