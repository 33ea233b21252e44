import DeadCode.Proofs.Liveness
import DeadCode.Proofs.Text

/-!
# DeadCode.Proofs.FrameworkUsage

What frameworks show to be used, compared with imports. A tag counts only where the same file
imports its name, and is then followed like that import, so all but one of the frameworks find
nothing that the imports of scripts and components do not lead to anyway. The exception is Nuxt,
which knows the files of its `components` directories without an import. Hence a framework makes a
difference to single imports only by the files that it loads itself.
-/

namespace DeadCode

open Text

/-- A file to which an import of a script or component leads. -/
def Project.IsScriptTarget (p : Project) (x : String) : Prop :=
  ∃ e ∈ (Language.usage .javaScript p).edges, e.target = x

namespace Framework

variable {p : Project} {f : Framework} {path x : String}

/-! ### Uses are imports -/

/-- Frameworks look for uses in scripts and components only. -/
theorem owns_of_readsUses (h : f.readsUses path = true) :
    Language.owns .javaScript path = true := by
  have hvue : Path.isVue path = true → Path.isComponent path = true := fun h => by
    rw [Path.isComponent, Path.hasExtension, beq_iff_eq.1 h]
    rfl
  have hsvelte : Path.isSvelte path = true → Path.isComponent path = true := fun h => by
    rw [Path.isComponent, Path.hasExtension, beq_iff_eq.1 h]
    rfl
  rw [Language.owns, Bool.or_eq_true]
  cases f with
  | next => exact .inl h
  | react => exact .inl h
  | vue => exact (Bool.or_eq_true_iff.1 h).imp_right hvue
  | nuxt => exact (Bool.or_eq_true_iff.1 h).imp_right hvue
  | svelte => exact (Bool.or_eq_true_iff.1 h).imp_right hsvelte

/-- A choice among the imports of a file leads where the language says that they lead. -/
theorem isScriptTarget_of_targets {m : ModuleSyntax} {imports : List Import}
    (hpath : path ∈ p.paths) (howns : Language.owns .javaScript path = true)
    (hm : p.module? path = some m) (himports : ∀ i ∈ imports, i ∈ m.imports)
    (hx : x ∈ targets p path imports) : p.IsScriptTarget x := by
  obtain ⟨hx, hne⟩ := List.mem_filter.1 hx
  obtain ⟨i, hi, hresolved⟩ := List.mem_filterMap.1 hx
  refine ⟨⟨path, x, i.exportedNames, i.edgeKind⟩, ?_, rfl⟩
  refine (Language.mem_edges_usage .javaScript p).2 ⟨path, hpath, howns, ?_⟩
  refine Language.mem_edgesIn.2 ⟨m, hm, i, himports i hi, rfl, ?_, by simpa using hne, rfl, rfl⟩
  exact Option.mem_toList.2 hresolved

/-- What a framework takes from the imports of a file is the target of one of them. -/
theorem isScriptTarget_of_usedBy (hpath : path ∈ p.paths)
    (howns : Language.owns .javaScript path = true) (hx : x ∈ f.usedBy p path) :
    p.IsScriptTarget x := by
  rcases List.mem_append.1 hx with hx | hx
  · split at hx
    · unfold boundTargets at hx
      split at hx
      · cases hx
      · next m hm =>
        -- the import that binds a name is one of the file's
        refine isScriptTarget_of_targets hpath howns hm (fun i hi => ?_) hx
        obtain ⟨name, -, hbinding⟩ := List.mem_filterMap.1 hi
        exact List.mem_of_find?_eq_some hbinding
    · cases hx
  · unfold dynamicTargets at hx
    split at hx
    · cases hx
    · next m hm =>
      exact isScriptTarget_of_targets hpath howns hm (fun i hi => (List.mem_filter.1 hi).1) hx

/-- Apart from the components of one framework, the used files of a framework are targets of
imports. -/
theorem isScriptTarget_or_of_usedFiles (hx : x ∈ f.usedFiles p) :
    p.IsScriptTarget x ∨ f = .nuxt ∧ IsNuxtComponent p x := by
  simp only [usedFiles, StringSet.mem_ofList, List.mem_append, List.mem_flatMap] at hx
  rcases hx with ⟨path, hpath, hx⟩ | hx
  · obtain ⟨hpath, hreads⟩ := List.mem_filter.1 hpath
    exact .inl (isScriptTarget_of_usedBy hpath (owns_of_readsUses hreads) hx)
  · split at hx
    · next hnuxt =>
      obtain ⟨path, -, hx⟩ := List.mem_flatMap.1 hx
      exact .inr ⟨hnuxt, isNuxtComponent_of_nuxtUsedBy hx⟩
    · cases hx

/-- Where the components of a Nuxt package lie. -/
theorem IsNuxtComponent.packageRelative_eq (h : IsNuxtComponent p x) :
    ∃ below, p.packageRelative x = "components/" ++ below ∨
      p.packageRelative x = "app/components/" ++ below := by
  obtain ⟨below, hbelow⟩ := Option.isSome_iff_exists.1 h.below
  rw [Path.below?_eq_some_iff, nuxtRelative] at hbelow
  refine ⟨below, ?_⟩
  cases happ : Path.below? "app" (p.packageRelative x) with
  | none =>
    rw [happ] at hbelow
    exact .inl hbelow
  | some inner =>
    rw [happ] at hbelow
    rw [Path.below?_eq_some_iff.1 happ, show inner = _ from hbelow]
    exact .inr rfl

end Framework

/-! ### Following a framework -/

namespace Survey

variable {p : Project} {x : String}

/-- The survey of a project in which the conventions of these frameworks hold. -/
def following (p : Project) (frameworks : List Framework) : Survey :=
  let manifests := Manifests.ofProject p
  let frameworkEntryPoints := frameworks.flatMap (·.entryPoints p)
  let frameworkUsed := frameworks.foldl (fun used f => used ∪ f.usedFiles p) StringSet.empty
  let usage := usageOf p manifests.entryPoints.toList frameworkEntryPoints frameworkUsed
  { project := p, manifests, frameworks, frameworkEntryPoints, frameworkUsed, usage
    graph := .ofUsage p.paths usage }

theorem ofProject_eq_following : ofProject p = following p p.activeFrameworks := rfl

section UsageOf

variable {manifestEntries : List String} {frameworkEntries : List EntryPoint}
  {frameworkUsed : StringSet}

theorem mem_entryPoints_usageOf :
    x ∈ (usageOf p manifestEntries frameworkEntries frameworkUsed).entryPoints ↔
      x ∈ (languageUsage p).entryPoints ∨ x ∈ manifestEntries ∨
        x ∈ frameworkEntries.map (·.path) := by
  rw [usageOf, Usage.entryPoints_foldl_markUsed, Usage.mem_entryPoints_foldl_addEntryPoint,
    Usage.mem_entryPoints_foldl_addEntryPoint, or_assoc]
  rfl

/-- The used files are put together from the languages, the entry points and the frameworks. -/
theorem mem_usedFiles_usageOf :
    x ∈ (usageOf p manifestEntries frameworkEntries frameworkUsed).usedFiles ↔
      x ∈ (languageUsage p).usedFiles ∨ x ∈ manifestEntries ∨
        x ∈ frameworkEntries.map (·.path) ∨ x ∈ frameworkUsed := by
  rw [usageOf, Usage.mem_usedFiles_foldl_markUsed, Usage.mem_usedFiles_foldl_addEntryPoint,
    Usage.mem_usedFiles_foldl_addEntryPoint, or_assoc, or_assoc]
  rfl

end UsageOf

/-- Where single imports count, the used files are those of the languages and the manifests, and for
each framework those that it loads and those that it shows to be used. -/
theorem mem_usedFiles_following (h : p.config.reachability = .referenced)
    {frameworks : List Framework} :
    x ∈ (following p frameworks).usedFiles ↔
      (x ∈ (languageUsage p).usedFiles ∨ x ∈ (Manifests.ofProject p).entryPoints) ∨
        ∃ f ∈ frameworks, x ∈ (f.entryPoints p).map (·.path) ∨ x ∈ f.usedFiles p := by
  have hused : x ∈ frameworks.foldl (fun used f => used ∪ f.usedFiles p) StringSet.empty ↔
      ∃ f ∈ frameworks, x ∈ f.usedFiles p := by
    have hstep : ∀ (used : StringSet) (f : Framework),
        x ∈ used ∪ f.usedFiles p ↔ x ∈ used ∨ x ∈ f.usedFiles p := fun _ _ => StringSet.mem_union
    rw [foldl_iff _ (P := (x ∈ ·)) hstep]
    simp
  have hentries : x ∈ (frameworks.flatMap (·.entryPoints p)).map (·.path) ↔
      ∃ f ∈ frameworks, x ∈ (f.entryPoints p).map (·.path) := by
    rw [List.map_flatMap, List.mem_flatMap]
  have hlanguage : x ∈ (languageUsage p).entryPoints → x ∈ (languageUsage p).usedFiles :=
    fun hx => (isExplained_languageUsage x).2 (.inl hx)
  have hreferenced : (following p frameworks).usedFiles =
      (following p frameworks).usage.usedFiles ∪ (following p frameworks).usage.entryPoints := by
    rw [usedFiles, show (following p frameworks).project = p from rfl, h]
  rw [hreferenced, StringSet.mem_union, following, mem_usedFiles_usageOf, mem_entryPoints_usageOf,
    ← StringSet.mem_iff, hentries, hused]
  constructor
  · grind
  · grind

/-- One more framework adds the files that it loads, and no others but those that it finds without
an import. -/
theorem mem_usedFiles_following_append (h : p.config.reachability = .referenced) {f : Framework}
    {as bs : List Framework} (hf : ∀ x ∈ f.usedFiles p, p.IsScriptTarget x) :
    x ∈ (following p (as ++ f :: bs)).usedFiles ↔
      x ∈ (following p (as ++ bs)).usedFiles ∨ x ∈ (f.entryPoints p).map (·.path) := by
  have hused : x ∈ f.usedFiles p → x ∈ (languageUsage p).usedFiles := fun hx => by
    obtain ⟨e, he, rfl⟩ := hf x hx
    exact (isExplained_languageUsage _).2 (.inr ⟨e, mem_edges_languageUsage.2 ⟨_, he⟩, rfl⟩)
  rw [mem_usedFiles_following h, mem_usedFiles_following h]
  simp only [List.mem_append, List.mem_cons]
  constructor
  · grind
  · grind

end Survey

/-- What a framework shows to be used is what imports lead to, and for Nuxt also the scripts and
components of its `components` directories. Where single imports count, a framework other than Nuxt
makes a difference by the files that it loads itself and by no others. -/
theorem framework_usage_follows_imports (p : Project) :
    (∀ f : Framework, f ≠ .nuxt → ∀ x ∈ f.usedFiles p, p.IsScriptTarget x) ∧
    (∀ x ∈ Framework.usedFiles .nuxt p, p.IsScriptTarget x ∨
      x ∈ p.paths ∧ (Path.isScript x = true ∨ Path.isComponent x = true) ∧
        ∃ below, p.packageRelative x = "components/" ++ below ∨
          p.packageRelative x = "app/components/" ++ below) ∧
    Survey.ofProject p = Survey.following p p.activeFrameworks ∧
    (p.config.reachability = .referenced →
      ∀ (as bs : List Framework) (f : Framework), f ≠ .nuxt → ∀ x : String,
        x ∈ (Survey.following p (as ++ f :: bs)).usedFiles ↔
          x ∈ (Survey.following p (as ++ bs)).usedFiles ∨
            x ∈ (f.entryPoints p).map (·.path)) := by
  have himports : ∀ f : Framework, f ≠ .nuxt → ∀ x ∈ f.usedFiles p, p.IsScriptTarget x := by
    intro f hf x hx
    exact (Framework.isScriptTarget_or_of_usedFiles hx).resolve_right fun h => hf h.1
  refine ⟨himports, ?_, Survey.ofProject_eq_following, ?_⟩
  · intro x hx
    refine (Framework.isScriptTarget_or_of_usedFiles hx).imp_right fun h => ?_
    have hsource := Bool.or_eq_true_iff.1 h.2.isSource
    exact ⟨h.2.mem_paths, hsource.symm, h.2.packageRelative_eq⟩
  · intro hreferenced as bs f hf x
    exact Survey.mem_usedFiles_following_append hreferenced (himports f hf)

/-- A page that imports the menu that it shows, and the menu, which shows a card without an
import. -/
def gallery : Project :=
  .ofFiles .default
    [.file "App.vue" "<script>import Menu from './Menu.vue'</script><template><Menu/></template>",
      .file "Menu.vue" "<template><Card/></template>", .file "components/Card.vue" ""]

theorem gallery_usage_follows_imports :
    gallery.IsScriptTarget "Menu.vue" ∧
    (∃ below, gallery.packageRelative "components/Card.vue" = "components/" ++ below ∨
      gallery.packageRelative "components/Card.vue" = "app/components/" ++ below) ∧
    ("Menu.vue" ∈ (Survey.following gallery [.vue]).usedFiles ↔
      "Menu.vue" ∈ (Survey.following gallery []).usedFiles ∨
        "Menu.vue" ∈ (Framework.entryPoints .vue gallery).map (·.path)) := by
  obtain ⟨himports, hnuxt, -, hadded⟩ := framework_usage_follows_imports gallery
  have hmenu : "Menu.vue" ∈ Framework.usedFiles .vue gallery := by decide +kernel
  have hcard : "components/Card.vue" ∈ Framework.usedFiles .nuxt gallery := by decide +kernel
  have hunimported : ¬ gallery.IsScriptTarget "components/Card.vue" := by
    unfold Project.IsScriptTarget
    decide +kernel
  have hcomponent := (hnuxt _ hcard).resolve_left hunimported
  exact ⟨himports .vue (by decide) _ hmenu, hcomponent.2.2,
    hadded rfl [] [] .vue (by decide) "Menu.vue"⟩

end DeadCode
