import DeadCode.Proofs.ImportMap

/-!
# DeadCode.Proofs.Merge

Usages as the operations build them. A `Usage` keeps the same facts in several places: an entry
point is also a used file, so is the target of an edge, and the import map repeats the edges. The
operations keep all of them in step (`Usage.IsConsistent`, `Usage.IsMapped`).

From this follow the laws of `merge`. It is associative, the empty usage changes nothing, and
neither does what is known already. The two sides may be exchanged up to the order of the edges,
where they do not disagree about the exports of a file. Only the sets, the exports and the edges
are compared for these laws: the import map is determined by the edges, whatever loop has built it.
-/

namespace DeadCode

/-! ### First arrivals -/

namespace Arrival

variable {α : Type} [DecidableEq α]

/-- What is added to a list are the first occurrences of the values that it lacks. -/
theorem addAll_eq_append_eraseDups (l xs : List α) :
    addAll l xs = l ++ (xs.filter (· ∉ l)).eraseDups := by
  induction xs generalizing l with
  | nil => simp
  | cons x xs ih =>
    rw [addAll_cons, ih]
    by_cases hx : x ∈ l
    · simp [add_of_mem hx, hx]
    · have hfilter : xs.filter (· ∉ l ++ [x]) = (xs.filter (· ∉ l)).filter (!· == x) := by
        rw [List.filter_filter]
        refine List.filter_congr fun y _ => ?_
        by_cases hy : y = x <;> simp [hy]
      rw [add_of_not_mem hx, hfilter, List.filter_cons_of_pos (by simpa using hx),
        List.eraseDups_cons, List.append_assoc, List.singleton_append]

theorem addAll_nil_left (xs : List α) : addAll [] xs = xs.eraseDups := by
  have hfilter : xs.filter (· ∉ []) = xs := List.filter_eq_self.2 (by simp)
  rw [addAll_eq_append_eraseDups, hfilter, List.nil_append]

theorem addAll_of_subset {l xs : List α} (h : ∀ x ∈ xs, x ∈ l) : addAll l xs = l := by
  have hfilter : xs.filter (· ∉ l) = [] := by simpa [List.filter_eq_nil_iff] using h
  rw [addAll_eq_append_eraseDups, hfilter, List.eraseDups_nil, List.append_nil]

/-- The order of the two lists shows in the order of the values only. -/
theorem addAll_perm_swap {l m : List α} (hl : l.Nodup) (hm : m.Nodup) :
    (addAll l m).Perm (addAll m l) := by
  refine (List.perm_ext_iff_of_nodup (nodup_addAll hl m) (nodup_addAll hm l)).2 fun x => ?_
  rw [mem_addAll, mem_addAll]
  exact or_comm

end Arrival

namespace Usage

variable {u v : Usage}

/-! ### Consistency -/

/-- What a usage says in one place agrees with what it says in another, the import map apart. -/
structure IsConsistent (u : Usage) : Prop where
  entryPoints_used : ∀ x ∈ u.entryPoints, x ∈ u.usedFiles
  targets_used : ∀ e ∈ u.edges, e.target ∈ u.usedFiles
  edges_nodup : u.edges.Nodup
  exports_ne_nil : ∀ x, u.exports.find? x ≠ some []

theorem isConsistent_empty : empty.IsConsistent where
  entryPoints_used x hx := absurd hx (StringSet.not_mem_empty x)
  targets_used e he := absurd he List.not_mem_nil
  edges_nodup := List.nodup_nil
  exports_ne_nil x := by simp [empty]

theorem IsConsistent.addEntryPoint (hu : u.IsConsistent) (path : String) :
    (u.addEntryPoint path).IsConsistent where
  entryPoints_used x hx :=
    StringSet.mem_insert.2 ((StringSet.mem_insert.1 hx).imp_right (hu.entryPoints_used x))
  targets_used e he := StringSet.mem_insert.2 (.inr (hu.targets_used e he))
  edges_nodup := hu.edges_nodup
  exports_ne_nil := hu.exports_ne_nil

theorem IsConsistent.markUsed (hu : u.IsConsistent) (path : String) :
    (u.markUsed path).IsConsistent where
  entryPoints_used x hx := StringSet.mem_insert.2 (.inr (hu.entryPoints_used x hx))
  targets_used e he := StringSet.mem_insert.2 (.inr (hu.targets_used e he))
  edges_nodup := hu.edges_nodup
  exports_ne_nil := hu.exports_ne_nil

/-- The target of an edge is used, and an edge that is there already is not added again. -/
theorem IsConsistent.addEdge (hu : u.IsConsistent) (e : ImportEdge) :
    (u.addEdge e).IsConsistent where
  entryPoints_used x hx := StringSet.mem_insert.2 (.inr (hu.entryPoints_used x hx))
  targets_used e' he' := by
    rcases Arrival.mem_add.1 he' with he' | rfl
    · exact StringSet.mem_insert.2 (.inr (hu.targets_used e' he'))
    · exact StringSet.mem_insert.2 (.inl rfl)
  edges_nodup := Arrival.nodup_add hu.edges_nodup e
  exports_ne_nil := hu.exports_ne_nil

theorem IsConsistent.setExports (hu : u.IsConsistent) (path : String) (symbols : List String) :
    (u.setExports path symbols).IsConsistent := by
  unfold Usage.setExports
  split
  · exact hu
  · next hsymbols =>
    refine ⟨hu.entryPoints_used, hu.targets_used, hu.edges_nodup, fun x => ?_⟩
    rw [StringMap.find?_insert]
    split
    · exact fun hnil => hsymbols (List.isEmpty_iff.2 (Option.some.inj hnil))
    · exact hu.exports_ne_nil x

theorem mem_usedFiles_merge {x : String} :
    x ∈ (u.merge v).usedFiles ↔ (x ∈ u.usedFiles ∨ x ∈ v.usedFiles) ∨ x ∈ v.entryPoints := by
  simp only [merge, StringSet.mem_union]

/-- What the parts of a merge guarantee, the merge guarantees. -/
theorem IsConsistent.merge (hu : u.IsConsistent) (hv : v.IsConsistent) :
    (u.merge v).IsConsistent where
  entryPoints_used x hx := by
    refine mem_usedFiles_merge.2 ?_
    rcases mem_entryPoints_merge.1 hx with hx | hx
    · exact .inl (.inl (hu.entryPoints_used x hx))
    · exact .inr hx
  targets_used e he := by
    refine mem_usedFiles_merge.2 (.inl ?_)
    exact (mem_edges_merge.1 he).imp (hu.targets_used e) (hv.targets_used e)
  edges_nodup := Arrival.nodup_addAll hu.edges_nodup v.edges
  exports_ne_nil x hx := by
    rw [find?_exports_merge] at hx
    rcases Option.or_eq_some_iff.1 hx with hx | ⟨-, hx⟩
    · exact hv.exports_ne_nil x hx
    · exact hu.exports_ne_nil x hx

/-- The induction is on how a usage was built. -/
theorem IsBuilt.isConsistent (h : u.IsBuilt) : u.IsConsistent := by
  induction h with
  | empty => exact isConsistent_empty
  | addEntryPoint path _ ih => exact ih.addEntryPoint path
  | markUsed path _ ih => exact ih.markUsed path
  | addEdge e _ ih => exact ih.addEdge e
  | setExports path symbols _ ih => exact ih.setExports path symbols
  | merge _ _ ihu ihv => exact ihu.merge ihv

/-! ### The import map is determined by the edges -/

/-- The files that a file imports, in the order of its edges and without later repetitions. -/
theorem targetsFrom_eq_eraseDups (source : String) :
    u.targetsFrom source =
      ((u.edges.filter (·.source = source)).map ImportEdge.target).eraseDups := by
  have hfilterMap : u.edges.filterMap (targetFrom? source) =
      (u.edges.filter (·.source = source)).map ImportEdge.target := by
    induction u.edges with
    | nil => rfl
    | cons e edges ih =>
      by_cases he : e.source = source
      · simp [targetFrom?, he, ih]
      · simp [targetFrom?, he, ih]
  rw [targetsFrom, Arrival.addAll_nil_left, hfilterMap]

/-- A file has targets as soon as an edge leaves it. -/
theorem targetsFrom_ne_nil_iff {source : String} :
    u.targetsFrom source ≠ [] ↔ ∃ e ∈ u.edges, e.source = source := by
  constructor
  · intro h
    obtain ⟨target, htarget⟩ := List.exists_mem_of_ne_nil _ h
    obtain ⟨e, he, hs, -⟩ := mem_targetsFrom.1 htarget
    exact ⟨e, he, hs⟩
  · intro h
    obtain ⟨e, he, hs⟩ := h
    exact List.ne_nil_of_mem (mem_targetsFrom.2 ⟨e, he, hs, rfl⟩)

/-- An entry of the map lists the targets of its file, and a file without targets has none. -/
theorem IsMapped.find?_eq (hu : u.IsMapped) (x : String) :
    u.importMap.find? x = if u.targetsFrom x = [] then none else some (u.targetsFrom x) := by
  rw [← hu.targets_eq x]
  cases h : u.importMap.find? x with
  | none => simp
  | some targets =>
    have hne : targets ≠ [] := fun hnil => hu.ne_nil x (hnil ▸ h)
    simp [hne]

theorem IsMapped.mem_keys_iff (hu : u.IsMapped) {x : String} :
    x ∈ u.importMap.keys ↔ ∃ e ∈ u.edges, e.source = x := by
  rw [StringMap.mem_keys, ← targetsFrom_ne_nil_iff, hu.find?_eq]
  by_cases h : u.targetsFrom x = [] <;> simp [h]

theorem IsMapped.eq_targetsFrom (hu : u.IsMapped) {x : String} {targets : List String}
    (h : u.importMap.find? x = some targets) : targets = u.targetsFrom x := by
  have heq := hu.targets_eq x
  rwa [h, Option.getD_some] at heq

/-- Two maps that repeat the same edges are equal. -/
theorem importMap_eq_of_edges_eq (hu : u.IsMapped) (hv : v.IsMapped) (h : u.edges = v.edges) :
    u.importMap = v.importMap := by
  refine StringMap.ext_find? fun x => ?_
  rw [hu.find?_eq, hv.find?_eq, targetsFrom, targetsFrom, h]

/-- The redundant parts of a usage stay in step under every sequence of operations. -/
theorem built_usage_in_step (h : u.IsBuilt) :
    (∀ x ∈ u.entryPoints, x ∈ u.usedFiles) ∧ u.edges.Nodup ∧
      (∀ e ∈ u.edges, e.target ∈ u.usedFiles) ∧
      (∀ x symbols, u.exports.find? x = some symbols → symbols ≠ []) ∧
      ∀ x, (x ∈ u.importMap.keys ↔ ∃ e ∈ u.edges, e.source = x) ∧
        ∀ targets, u.importMap.find? x = some targets →
          targets = ((u.edges.filter (·.source = x)).map ImportEdge.target).eraseDups := by
  have hconsistent := h.isConsistent
  have hmapped := h.isMapped
  refine ⟨hconsistent.entryPoints_used, hconsistent.edges_nodup, hconsistent.targets_used, ?_, ?_⟩
  · rintro x symbols hx rfl
    exact hconsistent.exports_ne_nil x hx
  · refine fun x => ⟨hmapped.mem_keys_iff, fun targets htargets => ?_⟩
    rw [hmapped.eq_targetsFrom htargets, targetsFrom_eq_eraseDups]

/-- An application that takes a name out of a library, as one language sees it. -/
def applicationUsage : Usage :=
  ((empty.addEntryPoint "app.ts").addEdge ⟨"app.ts", "lib.ts", ["f"], .named⟩).setExports
    "lib.ts" ["f"]

/-- The same application as another language sees it: it loads a helper and then the library. -/
def loaderUsage : Usage :=
  (((empty.addEdge ⟨"app.ts", "util.ts", [], .sideEffect⟩).addEdge
    ⟨"app.ts", "lib.ts", [], .dynamic⟩).markUsed "app.css").setExports "lib.ts" ["f"]

theorem isBuilt_applicationUsage : applicationUsage.IsBuilt :=
  ((IsBuilt.empty.addEntryPoint _).addEdge _).setExports _ _

theorem isBuilt_loaderUsage : loaderUsage.IsBuilt :=
  (((IsBuilt.empty.addEdge _).addEdge _).markUsed _).setExports _ _

theorem built_usage_in_step_application :
    (applicationUsage.merge loaderUsage).IsBuilt ∧
      (applicationUsage.merge loaderUsage).edges.length = 3 ∧
      "app.ts" ∈ (applicationUsage.merge loaderUsage).importMap.keys ∧
      ∀ targets, (applicationUsage.merge loaderUsage).importMap.find? "app.ts" = some targets →
        targets = ["lib.ts", "util.ts"] := by
  have hbuilt := isBuilt_applicationUsage.merge isBuilt_loaderUsage
  obtain ⟨-, -, -, -, hmap⟩ := built_usage_in_step hbuilt
  obtain ⟨hkeys, htargets⟩ := hmap "app.ts"
  refine ⟨hbuilt, by decide, hkeys.2 (by decide), fun targets h => ?_⟩
  rw [htargets targets h]
  decide +kernel

/-! ### The laws of merging -/

/-- A built usage is determined by its sets, its exports and its edges. -/
theorem eq_of_parts (hu : u.IsMapped) (hv : v.IsMapped)
    (hused : ∀ x, x ∈ u.usedFiles ↔ x ∈ v.usedFiles)
    (hentries : ∀ x, x ∈ u.entryPoints ↔ x ∈ v.entryPoints)
    (hexports : ∀ x, u.exports.find? x = v.exports.find? x) (hedges : u.edges = v.edges) :
    u = v := by
  have hmap := importMap_eq_of_edges_eq hu hv hedges
  have hused := StringSet.ext_mem hused
  have hentries := StringSet.ext_mem hentries
  have hexports := StringMap.ext_find? hexports
  cases u
  cases v
  congr

theorem IsBuilt.empty_merge (hu : u.IsBuilt) : Usage.empty.merge u = u := by
  refine eq_of_parts (IsBuilt.empty.merge hu).isMapped hu.isMapped ?_ ?_ ?_ ?_
  · intro x
    have hentry := hu.isConsistent.entryPoints_used x
    simp only [mem_usedFiles_merge, Usage.empty, StringSet.not_mem_empty, false_or]
    exact or_iff_left_of_imp hentry
  · intro x
    simp [Usage.empty]
  · intro x
    simp [find?_exports_merge, Usage.empty]
  · exact Arrival.addAll_of_nodup hu.isConsistent.edges_nodup

theorem IsBuilt.merge_empty (hu : u.IsBuilt) : u.merge Usage.empty = u := by
  refine eq_of_parts (hu.merge .empty).isMapped hu.isMapped ?_ ?_ ?_ rfl
  · intro x
    simp [mem_usedFiles_merge, Usage.empty]
  · intro x
    simp [Usage.empty]
  · intro x
    simp [find?_exports_merge, Usage.empty]

/-- Merging a usage with itself adds nothing, because edges are kept once. -/
theorem IsBuilt.merge_self (hu : u.IsBuilt) : u.merge u = u := by
  refine eq_of_parts (hu.merge hu).isMapped hu.isMapped ?_ ?_ ?_ ?_
  · intro x
    have hentry := hu.isConsistent.entryPoints_used x
    rw [mem_usedFiles_merge, or_self]
    exact or_iff_left_of_imp hentry
  · intro x
    rw [mem_entryPoints_merge, or_self]
  · intro x
    rw [find?_exports_merge, Option.or_self]
  · exact Arrival.addAll_of_subset fun _ he => he

/-- A merge of three does not depend on the brackets, down to the order of the edges. -/
theorem IsBuilt.merge_assoc {w : Usage} (hu : u.IsBuilt) (hv : v.IsBuilt) (hw : w.IsBuilt) :
    (u.merge v).merge w = u.merge (v.merge w) := by
  refine eq_of_parts ((hu.merge hv).merge hw).isMapped (hu.merge (hv.merge hw)).isMapped ?_ ?_ ?_ ?_
  · intro x
    simp only [mem_usedFiles_merge, mem_entryPoints_merge]
    grind
  · intro x
    rw [mem_entryPoints_merge, mem_entryPoints_merge, mem_entryPoints_merge, mem_entryPoints_merge,
      or_assoc]
  · intro x
    rw [find?_exports_merge, find?_exports_merge, find?_exports_merge, find?_exports_merge,
      Option.or_assoc]
  · exact (Arrival.addAll_addAll u.edges v.edges w.edges).symm

/-- No file has different exports in two usages. -/
def ExportsAgree (u v : Usage) : Prop :=
  ∀ x symbols symbols', u.exports.find? x = some symbols → v.exports.find? x = some symbols' →
    symbols = symbols'

/-- Where exports agree, it does not matter which ones are kept. -/
theorem exports_merge_comm (h : ExportsAgree u v) :
    (u.merge v).exports = (v.merge u).exports := by
  refine StringMap.ext_find? fun x => ?_
  rw [find?_exports_merge, find?_exports_merge]
  cases hu : u.exports.find? x with
  | none => simp
  | some symbols =>
    cases hv : v.exports.find? x with
    | none => simp
    | some symbols' => simp [h x symbols symbols' hu hv]

/-- The same edges in another order give every file the same imports in another order. -/
theorem targetsFrom_perm (h : u.edges.Perm v.edges) (x : String) :
    (u.targetsFrom x).Perm (v.targetsFrom x) := by
  refine (List.perm_ext_iff_of_nodup (Arrival.nodup_addAll List.nodup_nil _)
    (Arrival.nodup_addAll List.nodup_nil _)).2 fun target => ?_
  rw [Arrival.mem_addAll, Arrival.mem_addAll, (h.filterMap (targetFrom? x)).mem_iff]

/-- Merging is an idempotent monoid, and commutative up to order where the exports agree. -/
theorem merge_laws {a b c : Usage} (ha : a.IsBuilt) (hb : b.IsBuilt) (hc : c.IsBuilt) :
    empty.merge a = a ∧ a.merge empty = a ∧ a.merge a = a ∧
      (a.merge b).merge c = a.merge (b.merge c) ∧
      (ExportsAgree a b →
        (a.merge b).usedFiles = (b.merge a).usedFiles ∧
        (a.merge b).entryPoints = (b.merge a).entryPoints ∧
        (a.merge b).exports = (b.merge a).exports ∧
        (a.merge b).edges.Perm (b.merge a).edges ∧
        (a.merge b).importMap.keys = (b.merge a).importMap.keys ∧
        ∀ x targets targets', (a.merge b).importMap.find? x = some targets →
          (b.merge a).importMap.find? x = some targets' → targets.Perm targets') := by
  refine ⟨ha.empty_merge, ha.merge_empty, ha.merge_self, ha.merge_assoc hb hc, fun hexports => ?_⟩
  have hab := (ha.merge hb).isMapped
  have hba := (hb.merge ha).isMapped
  have hedges : (a.merge b).edges.Perm (b.merge a).edges :=
    Arrival.addAll_perm_swap ha.isConsistent.edges_nodup hb.isConsistent.edges_nodup
  refine ⟨?_, ?_, exports_merge_comm hexports, hedges, ?_, ?_⟩
  · refine StringSet.ext_mem fun x => ?_
    -- entry points are used on both sides, whichever of them a merge adds first
    have haentry := ha.isConsistent.entryPoints_used x
    have hbentry := hb.isConsistent.entryPoints_used x
    rw [mem_usedFiles_merge, mem_usedFiles_merge]
    grind
  · refine StringSet.ext_mem fun x => ?_
    rw [mem_entryPoints_merge, mem_entryPoints_merge]
    exact or_comm
  · refine StringSet.eq_of_sorted (a.merge b).importMap.sorted (b.merge a).importMap.sorted
      fun x => ?_
    exact hab.mem_keys_iff.trans <|
      (exists_congr fun e => and_congr_left' hedges.mem_iff).trans hba.mem_keys_iff.symm
  · intro x targets targets' htargets htargets'
    rw [hab.eq_targetsFrom htargets, hba.eq_targetsFrom htargets']
    exact targetsFrom_perm hedges x

theorem merge_laws_application :
    applicationUsage.IsBuilt ∧ loaderUsage.IsBuilt ∧ ExportsAgree applicationUsage loaderUsage ∧
      (applicationUsage.merge loaderUsage).merge applicationUsage =
        applicationUsage.merge (loaderUsage.merge applicationUsage) ∧
      (applicationUsage.merge loaderUsage).edges ≠ (loaderUsage.merge applicationUsage).edges ∧
      (applicationUsage.merge loaderUsage).edges.Perm
        (loaderUsage.merge applicationUsage).edges := by
  have hagree : ExportsAgree applicationUsage loaderUsage := by
    have hexports : applicationUsage.exports = loaderUsage.exports := by decide
    intro x symbols symbols' h h'
    rw [hexports, h'] at h
    exact (Option.some.inj h).symm
  obtain ⟨-, -, -, hassoc, hcomm⟩ :=
    merge_laws isBuilt_applicationUsage isBuilt_loaderUsage isBuilt_applicationUsage
  obtain ⟨-, -, -, hedges, -⟩ := hcomm hagree
  exact ⟨isBuilt_applicationUsage, isBuilt_loaderUsage, hagree, hassoc, by decide, hedges⟩

end Usage

end DeadCode
