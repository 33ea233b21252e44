import DeadCode.Framework.Convention
import DeadCode.Language.Basic
import DeadCode.Project.Manifests
import DeadCode.Proofs.Fold
import DeadCode.Proofs.StringMap

/-!
# DeadCode.Proofs.Resolver

Resolution does not leave the project. Whatever a resolver gives comes out of a probe, and a probe
asks for known files only. Aliases and base directories say where to look but add no files, so the
resolver of a project knows exactly its files. Hence imports, manifests and frameworks lead to files
of the project only.
-/

namespace DeadCode

namespace Resolver

variable {r : Resolver}

/-! ### Resolved files are known -/

theorem mem_files_of_probe? {path file : String} (h : r.probe? path = some file) :
    file ∈ r.files := by
  simp only [probe?] at h
  split at h
  · cases h
  · exact StringSet.contains_iff.1 (List.find?_some h)

/-- A resolved import leads to a known file, by whichever way it was resolved. -/
theorem mem_files_of_script? {source spec file : String} (h : r.script? source spec = some file) :
    file ∈ r.files := by
  simp only [script?] at h
  split at h
  · cases h
  · split at h
    · obtain ⟨path, -, hp⟩ := Option.bind_eq_some_iff.1 h
      exact mem_files_of_probe? hp
    · split at h
      · rw [Option.orElse_eq_orElse, Option.orElse_eq_or] at h
        rcases Option.or_eq_some_iff.1 h with hp | ⟨-, h⟩
        · exact mem_files_of_probe? hp
        · obtain ⟨path, -, hp⟩ := Option.bind_eq_some_iff.1 h
          exact mem_files_of_probe? hp
      · obtain ⟨path, -, hp⟩ := List.exists_of_findSome?_eq_some h
        exact mem_files_of_probe? hp

theorem mem_files_of_known? {path file : String} (h : r.known? path = some file) :
    file ∈ r.files := by
  obtain ⟨hknown, ⟨⟩⟩ := Option.ite_none_right_eq_some.1 h
  exact StringSet.contains_iff.1 hknown

theorem mem_files_of_pythonModule? {path file : String} (h : r.pythonModule? path = some file) :
    file ∈ r.files := by
  rw [pythonModule?, Option.orElse_eq_orElse, Option.orElse_eq_or] at h
  rcases Option.or_eq_some_iff.1 h with h | ⟨-, h⟩
  · exact mem_files_of_known? h
  · exact mem_files_of_known? h

theorem mem_files_of_pythonIn {name : List Char} {names : List String} {base file : String}
    (h : file ∈ r.pythonIn name names base) : file ∈ r.files := by
  simp only [pythonIn] at h
  split at h
  · cases h
  · rw [List.mem_eraseDups, List.mem_append, Option.mem_toList] at h
    rcases h with hmodule | hsubmodule
    · split at hmodule
      · exact mem_files_of_known? hmodule
      · exact mem_files_of_pythonModule? hmodule
    · obtain ⟨n, -, hn⟩ := List.mem_filterMap.1 hsubmodule
      obtain ⟨path, -, hpath⟩ := Option.bind_eq_some_iff.1 hn
      exact mem_files_of_pythonModule? hpath

theorem mem_files_of_python {source module file : String} {names : List String}
    (h : file ∈ r.python source module names) : file ∈ r.files := by
  simp only [python] at h
  cases hfound : List.find? (fun found => !List.isEmpty found) (List.map _ _) with
  | none =>
    rw [hfound] at h
    cases h
  | some found =>
    rw [hfound] at h
    obtain ⟨base, -, rfl⟩ := List.mem_map.1 (List.mem_of_find?_eq_some hfound)
    exact mem_files_of_pythonIn h

theorem mem_files_of_entryFile? {dir entry file : String} (h : r.entryFile? dir entry = some file) :
    file ∈ r.files := by
  simp only [entryFile?] at h
  split at h
  · cases h
  · rw [Option.orElse_eq_orElse, Option.orElse_eq_or] at h
    rcases Option.or_eq_some_iff.1 h with h | ⟨-, h⟩
    · obtain ⟨path, -, hp⟩ := Option.bind_eq_some_iff.1 h
      exact mem_files_of_probe? hp
    · obtain ⟨src, -, hsrc⟩ := Option.bind_eq_some_iff.1 h
      obtain ⟨path, -, hp⟩ := Option.bind_eq_some_iff.1 hsrc
      rw [probeStem?, Option.orElse_eq_orElse, Option.orElse_eq_or] at hp
      rcases Option.or_eq_some_iff.1 hp with hp | ⟨-, hp⟩
      · exact mem_files_of_probe? hp
      · obtain ⟨⟨stem, ext⟩, -, hstem⟩ := Option.bind_eq_some_iff.1 hp
        exact mem_files_of_probe? hstem

/-! ### Known files stay the same -/

theorem files_addAlias (a : Alias) : (r.addAlias a).files = r.files := by
  unfold addAlias
  split <;> rfl

theorem files_addBase (dir : String) : (r.addBase dir).files = r.files := by
  unfold addBase
  split <;> rfl

end Resolver

namespace Project

theorem files_addChain (r : Resolver) (chain : List (String × CompilerConfig)) :
    (addChain r chain).files = r.files := by
  rw [addChain, foldl_frame _ Resolver.files fun _ => Resolver.files_addAlias,
    foldl_frame _ Resolver.files fun _ => Resolver.files_addBase]

theorem files_resolverOf (config : Config) (nodes : Nodes) (root : String)
    (packageRoots : List String) :
    (resolverOf config nodes root packageRoots).files = nodes.keySet := by
  simp only [resolverOf]
  rw [foldl_frame _ Resolver.files files_addChain,
    foldl_frame _ Resolver.files fun _ => Resolver.files_addAlias]
  rfl

/-- The resolver of a project knows the files of the project. -/
theorem mem_resolver_files {config : Config} {nodes : Nodes} {x : String} :
    x ∈ (ofNodes config nodes).resolver.files ↔ x ∈ (ofNodes config nodes).paths := by
  have h : (ofNodes config nodes).resolver.files = nodes.keySet := files_resolverOf ..
  rw [h]
  rfl

end Project

/-! ### Files that imports and manifests lead to -/

theorem Language.mem_files_of_resolve {l : Language} {r : Resolver} {path x : String} {i : Import}
    (h : x ∈ l.resolve r path i) : x ∈ r.files := by
  cases l with
  | javaScript => exact Resolver.mem_files_of_script? (Option.mem_toList.1 h)
  | python => exact Resolver.mem_files_of_python h

theorem Manifests.mem_files_of_entryPoints {p : Project} {x : String}
    (h : x ∈ (Manifests.ofProject p).entryPoints) : x ∈ p.resolver.files := by
  obtain ⟨⟨path, package⟩, -, hx⟩ := List.mem_flatMap.1 (StringSet.mem_ofList.1 h)
  obtain ⟨entry, -, hentry⟩ := List.mem_filterMap.1 hx
  exact Resolver.mem_files_of_entryFile? hentry

/-! ### Files that frameworks show to be used -/

namespace Framework

variable {p : Project}

theorem mem_files_of_targets {path x : String} {imports : List Import}
    (h : x ∈ targets p path imports) : x ∈ p.resolver.files := by
  obtain ⟨hx, -⟩ := List.mem_filter.1 h
  obtain ⟨i, -, hi⟩ := List.mem_filterMap.1 hx
  exact Resolver.mem_files_of_script? hi

/-- What a framework uses by convention is known. -/
theorem mem_files_of_usedBy {f : Framework} {path x : String} (h : x ∈ f.usedBy p path) :
    x ∈ p.resolver.files := by
  rcases List.mem_append.1 h with h | h
  · split at h
    · unfold boundTargets at h
      split at h
      · cases h
      · exact mem_files_of_targets h
    · cases h
  · unfold dynamicTargets at h
    split at h
    · cases h
    · exact mem_files_of_targets h

/-- Every value of a map is a file of some kind. -/
def LeadsInto (kind : String → Prop) (found : StringMap String) : Prop :=
  ∀ name x, found.find? name = some x → kind x

/-- An entry of the right kind may be added. -/
theorem LeadsInto.insertIfNew {kind : String → Prop} {found : StringMap String}
    (h : LeadsInto kind found) (name : String) {path : String} (hpath : kind path) :
    LeadsInto kind (found.insertIfNew name path) := by
  intro k x hx
  rw [StringMap.find?_insertIfNew] at hx
  split at hx
  · cases hfound : found.find? name with
    | none =>
      rw [hfound] at hx
      exact Option.some.inj hx ▸ hpath
    | some y =>
      rw [hfound] at hx
      exact h name x (hfound.trans hx)
  · exact h k x hx

/-- A file that Nuxt imports of its own: a script or component below the `components` directory of
its package. -/
structure IsNuxtComponent (p : Project) (path : String) : Prop where
  mem_paths : path ∈ p.paths
  isSource : (Path.isComponent path || Path.isScript path) = true
  below : (Path.below? "components" (nuxtRelative (p.packageRelative path))).isSome = true

/-- Names are given to such files only, and a name keeps the first file it is given to. -/
theorem leadsInto_nuxtComponents : LeadsInto (IsNuxtComponent p) (nuxtComponents p) := by
  refine List.foldlRecOn _ _ (fun name x h => by simp at h) fun found hfound path hpath => ?_
  obtain ⟨hpath, hsource⟩ := List.mem_filter.1 hpath
  split
  · exact hfound
  · next below hbelow =>
    have hcomponent : IsNuxtComponent p path := ⟨hpath, hsource, hbelow ▸ rfl⟩
    exact List.foldlRecOn _ _ hfound fun found hfound name _ => hfound.insertIfNew name hcomponent

theorem isNuxtComponent_of_nuxtUsedBy {path x : String}
    (h : x ∈ nuxtUsedBy p (nuxtComponents p) path) : IsNuxtComponent p x := by
  unfold nuxtUsedBy at h
  split at h
  · cases h
  · obtain ⟨hx, -⟩ := List.mem_filter.1 h
    obtain ⟨name, -, hname⟩ := List.mem_filterMap.1 hx
    exact leadsInto_nuxtComponents _ x hname

theorem mem_paths_of_usedFiles {config : Config} {nodes : Project.Nodes} {f : Framework}
    {x : String} (h : x ∈ f.usedFiles (Project.ofNodes config nodes)) :
    x ∈ (Project.ofNodes config nodes).paths := by
  simp only [usedFiles, StringSet.mem_ofList, List.mem_append, List.mem_flatMap] at h
  rcases h with ⟨path, -, hx⟩ | h
  · exact Project.mem_resolver_files.1 (mem_files_of_usedBy hx)
  · split at h
    · obtain ⟨path, -, hx⟩ := List.mem_flatMap.1 h
      exact (isNuxtComponent_of_nuxtUsedBy hx).mem_paths
    · cases h

end Framework

end DeadCode
