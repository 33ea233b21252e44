import DeadCode.Proofs.DirectoryImport

/-!
# DeadCode.Proofs.AliasOrder

The order in which aliases are added. A resolver keeps its aliases by the length of their
beginnings, and those of one length in the order in which they came. That order cannot be observed:
of two different beginnings of one length at most one begins a given import. So the aliases that are
for an import stand in one order only, by strictly decreasing length, whatever the calls
(`Resolver.filter_rest?_eq`), and the first of them that leads to a file is the longest.
-/

namespace DeadCode

open Text

/-- A text that begins another one and takes as many bytes is that text. -/
theorem Text.eq_of_prefix_of_utf8ByteSize_eq {s t : String} (h : s.toList <+: t.toList)
    (hsize : s.utf8ByteSize = t.utf8ByteSize) : s = t := by
  obtain ⟨cs, hcs⟩ := h
  have htext : t = s ++ .ofList cs := by
    apply String.toList_inj.1
    simp [hcs]
  rw [htext, String.utf8ByteSize_append] at hsize
  have hempty : String.ofList cs = "" := String.utf8ByteSize_eq_zero_iff.1 (by omega)
  rw [htext, hempty, String.append_empty]

namespace Alias

variable {a b : Alias} {l : List Alias} {spec : String}

/-! ### Ranked lists -/

/-- A list of aliases without repetitions, longest beginning first. -/
structure IsRanked (l : List Alias) : Prop where
  sorted : l.Pairwise fun a b => b.beginning.utf8ByteSize ≤ a.beginning.utf8ByteSize
  nodup : l.Nodup

theorem isRanked_nil : IsRanked [] := ⟨.nil, .nil⟩

theorem mem_insertInto : b ∈ a.insertInto l ↔ b = a ∨ b ∈ l := by
  induction l with
  | nil => simp [insertInto]
  | cons c l ih =>
    rw [insertInto]
    split
    · simp
    · simp only [List.mem_cons, ih, or_left_comm]

/-- A new alias goes behind those whose beginning is at least as long: the longest stays first. -/
theorem IsRanked.insertInto (h : IsRanked l) (ha : a ∉ l) : IsRanked (a.insertInto l) := by
  induction l with
  | nil => exact ⟨by simp [Alias.insertInto], by simp [Alias.insertInto]⟩
  | cons c l ih =>
    obtain ⟨hc, hsorted⟩ := List.pairwise_cons.1 h.sorted
    obtain ⟨hcl, hnodup⟩ := List.nodup_cons.1 h.nodup
    obtain ⟨hac, hal⟩ := List.ne_and_not_mem_of_not_mem_cons ha
    rw [Alias.insertInto]
    split
    · next hlt =>
      refine ⟨List.pairwise_cons.2 ⟨fun b hb => ?_, h.sorted⟩, List.nodup_cons.2 ⟨ha, h.nodup⟩⟩
      rcases List.mem_cons.1 hb with rfl | hb
      · exact Nat.le_of_lt hlt
      · exact Nat.le_trans (hc b hb) (Nat.le_of_lt hlt)
    · next hge =>
      have hrest := ih ⟨hsorted, hnodup⟩ hal
      refine ⟨List.pairwise_cons.2 ⟨fun b hb => ?_, hrest.sorted⟩,
        List.nodup_cons.2 ⟨fun hmem => ?_, hrest.nodup⟩⟩
      · rcases mem_insertInto.1 hb with rfl | hb
        · exact Nat.le_of_not_lt hge
        · exact hc b hb
      · exact (mem_insertInto.1 hmem).elim (Ne.symm hac) hcl

/-! ### Aliases that are for one import -/

/-- An alias matches only imports that start with it. -/
theorem prefix_of_rest? {rest : String} (h : a.rest? spec = some rest) :
    a.beginning.toList <+: spec.toList := by
  unfold rest? at h
  split at h
  · split at h
    · next hspec => exact hspec ▸ List.prefix_rfl
    · cases h
  · obtain ⟨cs, hcs, -⟩ := Option.map_eq_some_iff.1 h
    exact ⟨cs, (dropPrefix?_eq_some_iff.1 hcs).symm⟩

/-- Two beginnings of one import that are equally long are the same. -/
theorem beginning_eq (ha : (a.rest? spec).isSome) (hb : (b.rest? spec).isSome)
    (hsize : a.beginning.utf8ByteSize = b.beginning.utf8ByteSize) : a.beginning = b.beginning := by
  obtain ⟨_, ha⟩ := Option.isSome_iff_exists.1 ha
  obtain ⟨_, hb⟩ := Option.isSome_iff_exists.1 hb
  rcases List.prefix_or_prefix_of_prefix (prefix_of_rest? ha) (prefix_of_rest? hb) with h | h
  · exact eq_of_prefix_of_utf8ByteSize_eq h hsize
  · exact (eq_of_prefix_of_utf8ByteSize_eq h hsize.symm).symm

theorem rest?_isSome_of_candidates {path : String} (h : path ∈ a.candidates spec) :
    (a.rest? spec).isSome := by
  unfold candidates at h
  split at h
  · cases h
  · next hrest => rw [hrest]; rfl

theorem candidates_eq_nil (h : ¬ (a.rest? spec).isSome) : a.candidates spec = [] := by
  rw [candidates, Option.not_isSome_iff_eq_none.1 h]

/-- Only the aliases that are for an import give paths for it. -/
theorem flatMap_candidates (l : List Alias) (spec : String) :
    l.flatMap (·.candidates spec) =
      (l.filter fun a => (a.rest? spec).isSome).flatMap (·.candidates spec) := by
  induction l with
  | nil => rfl
  | cons a l ih =>
    by_cases h : (a.rest? spec).isSome
    · rw [List.filter_cons, if_pos h, List.flatMap_cons, List.flatMap_cons, ih]
    · rw [List.filter_cons, if_neg h, List.flatMap_cons, candidates_eq_nil h, List.nil_append, ih]

end Alias

namespace Resolver

open Alias

/-! ### Calls that add aliases -/

/-- A resolver to which aliases are added one after another. -/
def ofAliases (files : StringSet) (root : String) (bases : List String) (calls : List Alias) :
    Resolver :=
  calls.foldl addAlias ⟨files, root, [], bases⟩

variable {r s : Resolver} {files : StringSet} {root : String} {bases : List String}
  {calls xs ys : List Alias} {a b : Alias} {source spec file : String}

theorem mem_aliases_addAlias : b ∈ (r.addAlias a).aliases ↔ b ∈ r.aliases ∨ b = a := by
  unfold addAlias
  split
  · next hknown =>
    rw [List.contains_iff_mem] at hknown
    exact ⟨.inl, fun h => h.elim id fun e => e ▸ hknown⟩
  · exact mem_insertInto.trans or_comm

theorem isRanked_addAlias (h : IsRanked r.aliases) : IsRanked (r.addAlias a).aliases := by
  unfold addAlias
  split
  · exact h
  · next hnew => exact h.insertInto (by simpa using hnew)

/-- The aliases of a resolver are those that were added, whatever their order. -/
theorem mem_aliases_ofAliases : a ∈ (ofAliases files root bases calls).aliases ↔ a ∈ calls := by
  rw [ofAliases, foldl_iff addAlias (P := fun r => a ∈ r.aliases) (Q := fun b => a = b)
    (fun r b => mem_aliases_addAlias)]
  simp

theorem isRanked_ofAliases : IsRanked (ofAliases files root bases calls).aliases :=
  List.foldlRecOn (motive := fun r => IsRanked r.aliases) calls addAlias isRanked_nil
    fun _ h _ _ => isRanked_addAlias h

theorem files_ofAliases : (ofAliases files root bases calls).files = files :=
  foldl_frame addAlias Resolver.files (fun _ => files_addAlias) calls _

theorem root_ofAliases : (ofAliases files root bases calls).root = root := by
  refine foldl_frame addAlias Resolver.root (fun r a => ?_) calls _
  unfold addAlias
  split <;> rfl

theorem bases_ofAliases : (ofAliases files root bases calls).bases = bases := by
  refine foldl_frame addAlias Resolver.bases (fun r a => ?_) calls _
  unfold addAlias
  split <;> rfl

/-! ### The aliases for one import -/

/-- The aliases that are for an import stand in one order, whichever order they came in. -/
theorem filter_rest?_eq {l m : List Alias} (hl : IsRanked l) (hm : IsRanked m)
    (hsame : ∀ a, a ∈ l ↔ a ∈ m)
    (hdistinct : ∀ a ∈ l, ∀ b ∈ l, a.beginning = b.beginning → a = b) (spec : String) :
    (l.filter fun a => (a.rest? spec).isSome) = m.filter fun a => (a.rest? spec).isSome := by
  refine List.Perm.eq_of_pairwise (fun a b ha hb hab hba => ?_) (hl.sorted.filter _)
    (hm.sorted.filter _) ?_
  · obtain ⟨hal, ha⟩ := List.mem_filter.1 ha
    obtain ⟨hbm, hb⟩ := List.mem_filter.1 hb
    exact hdistinct a hal b ((hsame b).2 hbm) (beginning_eq ha hb (Nat.le_antisymm hba hab))
  · refine (List.perm_ext_iff_of_nodup (hl.nodup.filter _) (hm.nodup.filter _)).2 fun a => ?_
    rw [List.mem_filter, List.mem_filter, hsame]

/-- The file to which an alias leads for an import. -/
def aliasFile? (r : Resolver) (a : Alias) (spec : String) : Option String :=
  (a.candidates spec).findSome? r.probe?

/-- The longest alias that leads to a file comes first. -/
theorem findSome?_candidates (hranked : IsRanked r.aliases)
    (hdistinct : ∀ a ∈ r.aliases, ∀ b ∈ r.aliases, a.beginning = b.beginning → a = b)
    (ha : a ∈ r.aliases) (hfile : r.aliasFile? a spec = some file)
    (hlongest : ∀ b ∈ r.aliases, (r.aliasFile? b spec).isSome →
      b.beginning.utf8ByteSize ≤ a.beginning.utf8ByteSize) :
    (r.candidates spec).findSome? r.probe? = some file := by
  obtain ⟨before, after, hsplit⟩ := List.append_of_mem ha
  have hnone : (before.flatMap (·.candidates spec)).findSome? r.probe? = none := by
    refine List.findSome?_eq_none_iff.2 fun path hpath => ?_
    obtain ⟨b, hb, hpath⟩ := List.mem_flatMap.1 hpath
    by_contra hprobe
    have hmem : b ∈ r.aliases := hsplit ▸ List.mem_append_left _ hb
    have hhit : (r.aliasFile? b spec).isSome := by
      rw [aliasFile?, List.isSome_findSome?, List.any_eq_true]
      exact ⟨path, hpath, Option.isSome_iff_ne_none.2 hprobe⟩
    obtain ⟨path', hpath', -⟩ := List.exists_of_findSome?_eq_some hfile
    have hsorted := hranked.sorted
    have hnodup := hranked.nodup
    rw [hsplit] at hsorted hnodup
    have hle := (List.pairwise_append.1 hsorted).2.2 b hb a List.mem_cons_self
    -- `b` stands before `a` and is not longer, so it is `a` itself
    have heq : b = a := hdistinct b hmem a ha (beginning_eq (rest?_isSome_of_candidates hpath)
      (rest?_isSome_of_candidates hpath') (Nat.le_antisymm (hlongest b hmem hhit) hle))
    exact (List.nodup_append.1 hnodup).2.2 b hb a List.mem_cons_self heq
  rw [candidates, hsplit, List.flatMap_append, List.flatMap_cons, List.findSome?_append,
    List.findSome?_append, hnone, Option.none_or, List.findSome?_append, ← aliasFile?, hfile,
    Option.some_or, Option.some_or]

/-! ### Imports -/

/-- Whether an import is looked up among the aliases: it is not empty, not relative and has no slash
at its start. -/
def asksAliases (spec : String) : Bool :=
  !spec.isEmpty && !isRelative spec && !startsWith ['/'] spec.toList

/-- Probing depends on the known files only. -/
theorem probe?_congr (h : r.files = s.files) : r.probe? = s.probe? := by
  funext path
  have hcontains : r.contains = s.contains := funext fun x => congrArg (·.contains x) h
  simp only [probe?, hcontains]

/-- An import that is neither relative nor rooted is looked up through aliases and base directories.
-/
theorem script?_of_asksAliases (h : asksAliases (withoutQuery spec) = true) :
    r.script? source spec = (r.candidates (withoutQuery spec)).findSome? r.probe? := by
  simp only [asksAliases, Bool.and_eq_true, Bool.not_eq_true', startsWith] at h
  obtain ⟨⟨hempty, hrelative⟩, hrooted⟩ := h
  rw [Option.isSome_eq_false_iff, Option.isNone_iff_eq_none] at hrooted
  rw [script?_eq, hempty, hrelative, hrooted]
  rfl

/-- Other imports do not depend on the aliases. -/
theorem script?_of_not_asksAliases (h : asksAliases (withoutQuery spec) = false)
    (hfiles : r.files = s.files) (hroot : r.root = s.root) :
    r.script? source spec = s.script? source spec := by
  rw [script?_eq, script?_eq, probe?_congr hfiles, hroot]
  split
  · rfl
  · next hempty =>
    split
    · rfl
    · next hrelative =>
      have hrooted : (dropPrefix? ['/'] (withoutQuery spec).toList).isSome := by
        simpa [asksAliases, hempty, hrelative, startsWith] using h
      obtain ⟨rest, hrest⟩ := Option.isSome_iff_exists.1 hrooted
      rw [hrest]

/-- **The order of the aliases does not matter, and the longest wins.** Let two runs of calls add
the same aliases, no two of which have the same beginning. Then both resolvers lead every import to
the same file. For an import that is looked up among the aliases this is the file of the longest
alias that leads to any; every other import goes as if there were no aliases. -/
theorem alias_order_irrelevant (files : StringSet) (root : String) (bases : List String)
    {xs ys : List Alias} (hsame : ∀ a, a ∈ xs ↔ a ∈ ys)
    (hdistinct : ∀ a ∈ xs, ∀ b ∈ xs, a.beginning = b.beginning → a = b) :
    let r := ofAliases files root bases xs
    (∀ source spec, r.script? source spec = (ofAliases files root bases ys).script? source spec) ∧
      (∀ source spec, asksAliases (withoutQuery spec) = true →
        ∀ a ∈ xs, ∀ file, r.aliasFile? a (withoutQuery spec) = some file →
          (∀ b ∈ xs, (r.aliasFile? b (withoutQuery spec)).isSome →
            b.beginning.utf8ByteSize ≤ a.beginning.utf8ByteSize) →
          r.script? source spec = some file) ∧
      ∀ source spec, asksAliases (withoutQuery spec) = false →
        r.script? source spec = (ofAliases files root bases []).script? source spec := by
  intro r
  have hdistinct' : ∀ a ∈ r.aliases, ∀ b ∈ r.aliases, a.beginning = b.beginning → a = b :=
    fun a ha b hb => hdistinct a (mem_aliases_ofAliases.1 ha) b (mem_aliases_ofAliases.1 hb)
  refine ⟨fun source spec => ?_, fun source spec hasks a ha file hfile hlongest => ?_,
    fun source spec hasks => ?_⟩
  · cases hasks : asksAliases (withoutQuery spec) with
    | true =>
      have hmem : ∀ a, a ∈ r.aliases ↔ a ∈ (ofAliases files root bases ys).aliases := fun a => by
        rw [mem_aliases_ofAliases, mem_aliases_ofAliases, hsame]
      have hcandidates : r.candidates (withoutQuery spec) =
          (ofAliases files root bases ys).candidates (withoutQuery spec) := by
        rw [candidates, candidates, flatMap_candidates,
          filter_rest?_eq isRanked_ofAliases isRanked_ofAliases hmem hdistinct',
          ← flatMap_candidates, bases_ofAliases, bases_ofAliases]
      rw [script?_of_asksAliases hasks, script?_of_asksAliases hasks, hcandidates,
        probe?_congr (files_ofAliases.trans files_ofAliases.symm)]
    | false =>
      exact script?_of_not_asksAliases hasks (files_ofAliases.trans files_ofAliases.symm)
        (root_ofAliases.trans root_ofAliases.symm)
  · rw [script?_of_asksAliases hasks]
    exact findSome?_candidates isRanked_ofAliases hdistinct' (mem_aliases_ofAliases.2 ha) hfile
      fun b hb => hlongest b (mem_aliases_ofAliases.1 hb)
  · exact script?_of_not_asksAliases hasks (files_ofAliases.trans files_ofAliases.symm)
      (root_ofAliases.trans root_ofAliases.symm)

/-- An alias for the sources. -/
def sourceAlias : Alias := ⟨"@/", ["src/"], false⟩

/-- An alias as long as that for the sources. -/
def libraryAlias : Alias := ⟨"~/", ["lib/", "src/lib/"], false⟩

/-- An alias for a part of the sources. -/
def widgetAlias : Alias := ⟨"@/ui/", ["ui/"], false⟩

/-- A resolver of buttons, to which aliases are added. -/
def buttonResolver (calls : List Alias) : Resolver :=
  ofAliases (.ofList ["src/ui/Button.ts", "ui/Button.tsx", "src/main.ts"]) "" ["src"] calls

/-- Three aliases that match the same import, in two orders and with one of them twice. -/
theorem alias_order_irrelevant_buttons :
    (buttonResolver [sourceAlias, libraryAlias, widgetAlias, sourceAlias]).script? "src/main.ts"
        "@/ui/Button" = some "ui/Button.tsx" ∧
      (buttonResolver [widgetAlias, libraryAlias, sourceAlias]).script? "src/main.ts"
        "@/ui/Button" = some "ui/Button.tsx" := by
  have hsame : ∀ a, a ∈ [sourceAlias, libraryAlias, widgetAlias, sourceAlias] ↔
      a ∈ [widgetAlias, libraryAlias, sourceAlias] := by
    intro a
    simp only [List.mem_cons, List.not_mem_nil]
    tauto
  obtain ⟨horder, hlongest, -⟩ := alias_order_irrelevant
    (.ofList ["src/ui/Button.ts", "ui/Button.tsx", "src/main.ts"]) "" ["src"] hsame (by decide)
  have hfile : (buttonResolver [sourceAlias, libraryAlias, widgetAlias, sourceAlias]).script?
      "src/main.ts" "@/ui/Button" = some "ui/Button.tsx" :=
    hlongest _ _ (by decide) widgetAlias (by decide) _ (by decide) (by decide)
  exact ⟨hfile, (horder _ _).symm.trans hfile⟩

/-- An alias for every import. -/
def anyAlias : Alias := ⟨"", ["types/"], false⟩

/-- An alias for every import with a slash at its start. -/
def rootedAlias : Alias := ⟨"/", ["src/"], false⟩

/-- A resolver with an alias for every import and a longer one for those with a slash. -/
def rootedResolver : Resolver :=
  ofAliases (.ofList ["src/util.ts", "types/util.ts"]) "" [] [anyAlias, rootedAlias]

/-- Both aliases are for the import and lead to a file, but no alias is asked for an import with a
slash at its start. -/
theorem rooted_import_passes_aliases :
    rootedResolver.aliasFile? anyAlias "/util" = some "types/util.ts" ∧
      rootedResolver.aliasFile? rootedAlias "/util" = some "src/util.ts" ∧
      rootedResolver.script? "src/main.ts" "/util" = none := by
  decide

end Resolver

end DeadCode
