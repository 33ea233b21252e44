import DeadCode.Proofs.ByteOrder
import DeadCode.Proofs.ImportGraph
import DeadCode.Proofs.Text
import DeadCode.Usage.Barrel

/-!
# DeadCode.Proofs.Barrel

Liveness inside the directory of a barrel. A file of the directory is alive when a chain of imports
enters the directory from a used file outside and stays inside until it arrives
(`Usage.IsEnteredFrom`). The search starts from the entered files other than the barrel; in a group
without usage from outside the barrel is not entered, so nothing is missed and the dead members are
those that are not entered (`BarrelGroup.deadMembers_of_groups`). The last section compares two sets
of used files: more used files keep more of a directory alive.
-/

namespace DeadCode

open Relation

/-- Cut a chain that ends in `P` but does not start there at its last step into `P`. -/
theorem exists_last_step_into {α : Type} {r : α → α → Prop} {P : α → Prop} {a b : α}
    (h : ReflTransGen r a b) (ha : ¬ P a) (hb : P b) :
    ∃ c d, ReflTransGen r a c ∧ ¬ P c ∧ r c d ∧ P d ∧
      ReflTransGen (fun x y => r x y ∧ P y) d b := by
  induction h with
  | refl => exact absurd hb ha
  | @tail x y hax hxy ih =>
    by_cases hx : P x
    · -- the step stays inside, so the last step into `P` is an earlier one
      obtain ⟨c, d, hac, hc, hcd, hd, hdx⟩ := ih hx
      exact ⟨c, d, hac, hc, hcd, hd, hdx.tail ⟨hxy, hb⟩⟩
    · exact ⟨x, y, hax, hx, hxy, hb, .refl⟩

/-- An import that ends in a directory. -/
def Usage.ImportsInto (u : Usage) (dir a b : String) : Prop :=
  u.Imports a b ∧ Path.isWithin b dir = true

/-- A chain of imports enters a directory from a used file outside and stays inside until it arrives
at `path`. -/
def Usage.IsEnteredFrom (u : Usage) (used : StringSet) (dir path : String) : Prop :=
  ∃ source target, source ∈ used ∧ Path.isWithin source dir = false ∧
    u.ImportsInto dir source target ∧ ReflTransGen (u.ImportsInto dir) target path

theorem Usage.IsEnteredFrom.exists_imports {u : Usage} {used : StringSet} {dir path : String}
    (h : u.IsEnteredFrom used dir path) : ∃ source, u.Imports source path := by
  obtain ⟨source, target, -, -, himport, hchain⟩ := h
  rcases hchain.cases_tail with rfl | ⟨last, -, hlast⟩
  · exact ⟨source, himport.1⟩
  · exact ⟨last, hlast.1⟩

namespace BarrelGroup

variable {u : Usage} {used : StringSet} {g : BarrelGroup}

/-! ### The search -/

theorem mem_importsInside {a b : String} :
    b ∈ g.importsInside u a ↔ u.ImportsInto g.directory a b := by
  simp only [importsInside, Usage.ImportsInto, Usage.Imports, List.mem_filter, List.mem_map,
    decide_eq_true_eq, and_assoc]

/-- The kept files are what used files outside the directory import from it, the barrel apart. -/
theorem mem_kept {x : String} :
    x ∈ g.kept u used ↔ x ≠ g.barrel ∧ ∃ source, source ∈ used ∧
      Path.isWithin source g.directory = false ∧ u.ImportsInto g.directory source x := by
  simp only [kept, comesFromOutside, List.mem_filter, List.mem_map, Bool.and_eq_true,
    Bool.not_eq_true', StringSet.contains_iff, decide_eq_true_eq]
  constructor
  · intro h
    obtain ⟨⟨e, ⟨he, hout, hused⟩, rfl⟩, hin, hne⟩ := h
    exact ⟨hne, e.source, hused, hout, ⟨e, he, rfl, rfl⟩, hin⟩
  · intro h
    obtain ⟨hne, source, hused, hout, ⟨e, he, rfl, rfl⟩, hin⟩ := h
    exact ⟨⟨e, ⟨he, hout, hused⟩, rfl⟩, hin, hne⟩

/-- The alive files are reached from the kept ones inside the directory; every file that the search
may meet is the target of an import, so none is passed over. -/
theorem mem_alive {x : String} :
    x ∈ g.alive u used ↔ ∃ t ∈ g.kept u used, ReflTransGen (u.ImportsInto g.directory) t x := by
  have htarget : ∀ {a b}, u.ImportsInto g.directory a b →
      b ∈ (StringSet.ofList (u.edges.map (·.target))).toList := by
    rintro a b ⟨⟨e, he, -, rfl⟩, -⟩
    exact StringSet.mem_ofList.2 (List.mem_map_of_mem he)
  have hclosed : ∀ a, ∀ b ∈ g.importsInside u a,
      b ∈ (StringSet.ofList (u.edges.map (·.target))).toList :=
    fun a b hb => htarget (mem_importsInside.1 hb)
  rw [alive, mem_explore_iff_of_closed hclosed]
  simp only [mem_importsInside]
  refine exists_congr fun t => and_congr_right fun ht => and_iff_right ?_
  obtain ⟨-, source, -, -, himport⟩ := mem_kept.1 ht
  exact htarget himport

/-! ### Groups of barrels -/

theorem contains_iff {x : String} : g.contains x = true ↔ x = g.barrel ∨ x ∈ g.components := by
  rw [contains, Bool.or_eq_true, decide_eq_true_eq, List.contains_iff_mem, eq_comm]

/-- What is known of a group that was made for a barrel. -/
structure IsGroupOf (u : Usage) (used : StringSet) (g : BarrelGroup) : Prop where
  directory_eq : g.directory = Path.parent g.barrel
  mem_components : ∀ x, x ∈ g.components ↔
    u.ImportsInto g.directory g.barrel x ∧ x ≠ g.barrel
  usedOutside_iff : g.usedOutside = true ↔ ∃ source target, source ∈ used ∧
    Path.isWithin source g.directory = false ∧ u.Imports source target ∧ g.contains target = true

/-- What is collected for a barrel is the group that the usage says it has. -/
theorem isGroupOf_ofBarrel (barrel pattern : String) :
    IsGroupOf u used (ofBarrel u used barrel pattern) where
  directory_eq := rfl
  mem_components x := by
    simp only [ofBarrel, ← StringSet.mem_iff, StringSet.mem_ofList, List.mem_filter, List.mem_map,
      Bool.and_eq_true, decide_eq_true_eq, Usage.ImportsInto, Usage.Imports]
    constructor
    · intro h
      obtain ⟨⟨e, ⟨he, hs⟩, rfl⟩, hne, hin⟩ := h
      exact ⟨⟨⟨e, he, hs, rfl⟩, hin⟩, hne⟩
    · intro h
      obtain ⟨⟨⟨e, he, hs, rfl⟩, hin⟩, hne⟩ := h
      exact ⟨⟨e, ⟨he, hs⟩, rfl⟩, hne, hin⟩
  usedOutside_iff := by
    simp only [contains_iff, ofBarrel, comesFromOutside, List.any_eq_true, Bool.and_eq_true,
      Bool.or_eq_true, Bool.not_eq_true', StringSet.contains_iff, decide_eq_true_eq,
      ← StringSet.mem_iff]
    constructor
    · intro h
      obtain ⟨e, he, ⟨hout, hused⟩, hmember⟩ := h
      exact ⟨e.source, e.target, hused, hout, ⟨e, he, rfl, rfl⟩, hmember⟩
    · intro h
      obtain ⟨source, target, hused, hout, ⟨e, he, rfl, rfl⟩, hmember⟩ := h
      exact ⟨e, he, ⟨hout, hused⟩, hmember⟩

theorem mem_groups {patterns paths : List String} :
    g ∈ groups patterns paths u used ↔ ∃ barrel ∈ paths, ∃ pattern,
      pattern? patterns barrel = some pattern ∧ ofBarrel u used barrel pattern = g := by
  simp only [groups, List.mem_filterMap, Option.map_eq_some_iff]

theorem isGroupOf_of_mem_groups {patterns paths : List String}
    (h : g ∈ groups patterns paths u used) : IsGroupOf u used g := by
  obtain ⟨barrel, -, pattern, -, rfl⟩ := mem_groups.1 h
  exact isGroupOf_ofBarrel barrel pattern

namespace IsGroupOf

variable (hg : IsGroupOf u used g)

include hg

/-- Every member of a group lies in its directory. -/
theorem isWithin_of_contains {x : String} (hx : g.contains x = true) :
    Path.isWithin x g.directory = true := by
  rcases contains_iff.1 hx with rfl | hx
  · rw [hg.directory_eq]
    exact Path.isWithin_parent g.barrel
  · exact ((hg.mem_components x).1 hx).1.2

/-- Without usage from outside, the alive files are those that are entered from there. -/
theorem mem_alive_iff (hout : g.usedOutside = false) {x : String} :
    x ∈ g.alive u used ↔ u.IsEnteredFrom used g.directory x := by
  rw [mem_alive]
  constructor
  · intro h
    obtain ⟨t, ht, hchain⟩ := h
    obtain ⟨-, source, hused, hsource, himport⟩ := mem_kept.1 ht
    exact ⟨source, t, hused, hsource, himport, hchain⟩
  · intro h
    obtain ⟨source, t, hused, hsource, himport, hchain⟩ := h
    refine ⟨t, mem_kept.2 ⟨?_, source, hused, hsource, himport⟩, hchain⟩
    -- an outside import of the barrel would count as usage from outside
    rintro rfl
    have hcontains : g.contains g.barrel = true := contains_iff.2 (.inl rfl)
    have := hg.usedOutside_iff.2 ⟨source, g.barrel, hused, hsource, himport.1, hcontains⟩
    rw [hout] at this
    cases this

/-- The dead members of a group that is not used outside are those to which no chain of imports
leads from a used file outside. -/
theorem mem_deadMembers_iff {x : String} :
    x ∈ g.deadMembers u used ↔
      g.usedOutside = false ∧ g.contains x = true ∧ ¬ u.IsEnteredFrom used g.directory x := by
  unfold deadMembers
  by_cases hout : g.usedOutside = true
  · simp [hout]
  · have hout : g.usedOutside = false := Bool.eq_false_iff.2 hout
    simp only [hout, Bool.false_eq_true, if_false, List.mem_filter, List.mem_cons, true_and,
      contains_iff, Bool.not_eq_true', List.contains_eq_mem, decide_eq_false_iff_not,
      hg.mem_alive_iff hout]

end IsGroupOf

/-- The components are listed in increasing order, and the barrel is not one of them. -/
theorem pairwise_components {patterns paths : List String}
    (hg : g ∈ groups patterns paths u used) :
    g.components.Pairwise (utf8Bytes · < utf8Bytes ·) ∧ g.barrel ∉ g.components := by
  refine ⟨?_, fun hbarrel => (((isGroupOf_of_mem_groups hg).mem_components _).1 hbarrel).2 rfl⟩
  obtain ⟨barrel, -, pattern, -, rfl⟩ := mem_groups.1 hg
  exact (StringSet.sorted _).imp utf8Bytes_lt_iff.2

/-- The dead members of a group without usage from outside are the barrel and the components, in
this order and the components in increasing order, that no chain of imports enters from a used file
outside the directory. -/
theorem deadMembers_of_groups {patterns paths : List String}
    (hg : g ∈ groups patterns paths u used) (hout : g.usedOutside = false) :
    (g.deadMembers u used).Sublist (g.barrel :: g.components) ∧
      g.components.Pairwise (utf8Bytes · < utf8Bytes ·) ∧ g.barrel ∉ g.components ∧
      ∀ m, m ∈ g.deadMembers u used ↔
        (m = g.barrel ∨ m ∈ g.components) ∧ ¬ u.IsEnteredFrom used g.directory m := by
  have hmembers : (g.deadMembers u used).Sublist (g.barrel :: g.components) := by
    rw [deadMembers, hout, if_neg Bool.false_ne_true]
    exact List.filter_sublist
  obtain ⟨hsorted, hbarrel⟩ := pairwise_components hg
  refine ⟨hmembers, hsorted, hbarrel, fun m => ?_⟩
  rw [(isGroupOf_of_mem_groups hg).mem_deadMembers_iff, contains_iff]
  exact and_iff_right hout

/-- A toolbar that is used outside imports a button, which imports it back. The barrel exports the
button, but nothing imports the barrel. -/
def toolbarUsage : Usage :=
  [⟨"ui/index.ts", "ui/Button.ts", [], .reExport⟩, ⟨"ui/Toolbar.ts", "ui/Button.ts", [], .named⟩,
    ⟨"ui/Button.ts", "ui/Toolbar.ts", [], .named⟩,
    ⟨"app.ts", "ui/Toolbar.ts", [], .named⟩].foldl .addEdge .empty

def toolbarGroup : BarrelGroup :=
  ofBarrel toolbarUsage (.ofList ["app.ts"]) "ui/index.ts" "ui/"

theorem deadMembers_toolbarGroup :
    toolbarGroup ∈ groups ["ui/"] ["app.ts", "ui/index.ts"] toolbarUsage (.ofList ["app.ts"]) ∧
      toolbarGroup.usedOutside = false ∧
      "ui/index.ts" ∈ toolbarGroup.deadMembers toolbarUsage (.ofList ["app.ts"]) ∧
      "ui/Button.ts" ∉ toolbarGroup.deadMembers toolbarUsage (.ofList ["app.ts"]) := by
  have hgroup : toolbarGroup ∈
      groups ["ui/"] ["app.ts", "ui/index.ts"] toolbarUsage (.ofList ["app.ts"]) := by
    decide +kernel
  have hout : toolbarGroup.usedOutside = false := by decide +kernel
  obtain ⟨-, -, -, hdead⟩ := deadMembers_of_groups hgroup hout
  refine ⟨hgroup, hout, (hdead _).2 ⟨.inl rfl, fun hentered => ?_⟩, fun hbutton => ?_⟩
  · have hnone : ∀ e ∈ toolbarUsage.edges, e.target ≠ "ui/index.ts" := by decide +kernel
    obtain ⟨source, e, he, -, htarget⟩ := hentered.exists_imports
    exact hnone e he htarget
  · have hfirst : toolbarUsage.ImportsInto "ui" "app.ts" "ui/Toolbar.ts" :=
      ⟨⟨⟨"app.ts", "ui/Toolbar.ts", [], .named⟩, by decide +kernel, rfl, rfl⟩, by decide +kernel⟩
    have hnext : toolbarUsage.ImportsInto "ui" "ui/Toolbar.ts" "ui/Button.ts" :=
      ⟨⟨⟨"ui/Toolbar.ts", "ui/Button.ts", [], .named⟩, by decide +kernel, rfl, rfl⟩,
        by decide +kernel⟩
    have hdirectory : toolbarGroup.directory = "ui" := by decide +kernel
    rw [hdead, hdirectory] at hbutton
    exact hbutton.2 ⟨"app.ts", _, by decide +kernel, by decide +kernel, hfirst, .single hnext⟩

/-! ### More used files -/

section Mono

variable {more : StringSet} (hused : ∀ x ∈ used, x ∈ more)

include hused

/-- With more used files, no file loses a way into the directory. -/
theorem isEnteredFrom_mono {dir path : String} (h : u.IsEnteredFrom used dir path) :
    u.IsEnteredFrom more dir path := by
  obtain ⟨source, target, hsource, hout, himport, hchain⟩ := h
  exact ⟨source, target, hused source hsource, hout, himport, hchain⟩

/-- With more used files, a barrel that is used outside stays so. -/
theorem usedOutside_mono {barrel pattern : String}
    (h : (ofBarrel u used barrel pattern).usedOutside = true) :
    (ofBarrel u more barrel pattern).usedOutside = true := by
  obtain ⟨source, target, hsource, hout, himport, hmember⟩ :=
    (isGroupOf_ofBarrel barrel pattern).usedOutside_iff.1 h
  exact (isGroupOf_ofBarrel barrel pattern).usedOutside_iff.2
    ⟨source, target, hused source hsource, hout, himport, hmember⟩

/-- A member that is dead though more files are used is dead when fewer are. -/
theorem deadMembers_anti {barrel pattern path : String}
    (h : path ∈ (ofBarrel u more barrel pattern).deadMembers u more) :
    path ∈ (ofBarrel u used barrel pattern).deadMembers u used := by
  obtain ⟨houtside, hmember, hentered⟩ :=
    (isGroupOf_ofBarrel barrel pattern).mem_deadMembers_iff.1 h
  refine (isGroupOf_ofBarrel barrel pattern).mem_deadMembers_iff.2 ⟨?_, hmember, ?_⟩
  · refine Bool.eq_false_iff.2 fun hless => ?_
    rw [usedOutside_mono hused hless] at houtside
    cases houtside
  · exact fun hless => hentered (isEnteredFrom_mono hused hless)

end Mono

/-- The used files decide about a group, not which files belong to it. -/
theorem map_members_groups (patterns paths : List String) (u : Usage) (used more : StringSet) :
    (groups patterns paths u used).map (fun g => (g.barrel, g.components, g.directory, g.pattern)) =
      (groups patterns paths u more).map
        (fun g => (g.barrel, g.components, g.directory, g.pattern)) := by
  simp only [groups, List.map_filterMap, Option.map_map]
  rfl

end BarrelGroup

end DeadCode
