import DeadCode.Project.Aliases
import DeadCode.Proofs.Explore
import DeadCode.Proofs.StringMap
import Mathlib.Data.Set.Finite.Basic

/-!
# DeadCode.Proofs.Inheritance

Inheritance of compiler configurations. A configuration that can be read *extends* the files of the
project that its relative entries name (`Project.Extends`), and it *inherits* a setting that it does
not have itself through the last of its entries that has one (`Project.Inherits`). The chain of a
configuration is found by a depth-first search that visits each file once, and the setting of the
first file in it counts.

The two agree where no configuration extends itself at any distance. The search may come to a file a
second time, through another of its heirs, and then passes it over; by then everything behind that
file has been visited, and nothing of it had a value (`NothingFound`). So the first value of a
search obeys the recursion of inheritance (`firstValue_eq`), of which there is only one solution.
-/

namespace DeadCode

open Relation

/-! ### The first value of a search -/

section FirstValue

variable {α β : Type} [DecidableEq α] {next : α → List α} {value : α → Option β}
  {known unseen work : List α} {x : α}

/-- The first value that a search from a place meets. -/
def firstValue (next : α → List α) (value : α → Option β) (known : List α) (x : α) : Option β :=
  (explore next known [x]).findSome? value

/-- Nothing has been found so far: of the known places, those that have been seen have no value, and
their successors have been seen, too. -/
structure NothingFound (next : α → List α) (value : α → Option β) (known unseen : List α) :
    Prop where
  nodup : unseen.Nodup
  subset : unseen ⊆ known
  value_eq_none : ∀ x ∈ known, x ∉ unseen → value x = none
  next_seen : ∀ x ∈ known, x ∉ unseen → ∀ b ∈ next x, b ∉ unseen

omit [DecidableEq α] in
theorem NothingFound.start (h : known.Nodup) : NothingFound next value known known where
  nodup := h
  subset _ hx := hx
  value_eq_none _ hx hseen := absurd hx hseen
  next_seen _ hx hseen := absurd hx hseen

namespace NothingFound

variable (h : NothingFound next value known unseen)

include h

/-- A search that meets no value leaves it so. -/
theorem step (hnone : (explore next unseen work).findSome? value = none) :
    NothingFound next value known (unseen.filter (· ∉ explore next unseen work)) where
  nodup := h.nodup.filter _
  subset _ hx := h.subset (List.mem_of_mem_filter hx)
  value_eq_none x hx hseen := by
    simp only [List.mem_filter, decide_eq_true_eq, not_and, not_not] at hseen
    by_cases hunseen : x ∈ unseen
    · exact List.findSome?_eq_none_iff.1 hnone x (hseen hunseen)
    · exact h.value_eq_none x hx hunseen
  next_seen x hx hseen b hb := by
    simp only [List.mem_filter, decide_eq_true_eq, not_and, not_not] at hseen ⊢
    intro hb'
    by_cases hunseen : x ∈ unseen
    · exact mem_explore_of_step (hseen hunseen) ⟨hb, hb'⟩
    · exact absurd hb' (h.next_seen x hx hunseen b hb)

/-- There is no value behind a place that has been seen. -/
theorem firstValue_eq_none (hx : x ∉ unseen) : firstValue next value known x = none := by
  refine List.findSome?_eq_none_iff.2 fun y hy => ?_
  have hseen : y ∈ known ∧ y ∉ unseen := by
    refine explore_induction (motive := fun y => y ∈ known ∧ y ∉ unseen) ?_ ?_ y hy
    · intro w hw hknown
      rw [List.mem_singleton.1 hw] at hknown ⊢
      exact ⟨hknown, hx⟩
    · intro a b ha hab
      exact ⟨hab.2, h.next_seen a ha.1 ha.2 b hab.1⟩
  exact h.value_eq_none y hseen.1 hseen.2

/-- If each of some places gives its first value whatever has been seen, then a search through all
of them gives the first of these values. -/
theorem findSome?_explore {places : List α}
    (hplaces : ∀ x ∈ places, ∀ unseen, NothingFound next value known unseen →
      (explore next unseen [x]).findSome? value = firstValue next value known x) :
    (explore next unseen places).findSome? value =
      places.findSome? (firstValue next value known) := by
  induction places generalizing unseen with
  | nil => rw [explore]; rfl
  | cons x places ih =>
    have hfirst := hplaces x List.mem_cons_self unseen h
    rw [← List.singleton_append, explore_append h.nodup, List.findSome?_append, hfirst,
      List.findSome?_append, List.findSome?_singleton]
    cases hvalue : firstValue next value known x with
    | some v => rfl
    | none =>
      rw [hvalue] at hfirst
      exact ih (h.step hfirst) fun y hy => hplaces y (List.mem_cons_of_mem _ hy)

end NothingFound

/-- The place itself comes first, and then what it leads to. That the place counts as seen from then
on makes no difference when nothing leads back to it. -/
theorem explore_singleton (hnodup : unseen.Nodup) (hx : x ∈ unseen)
    (hback : ¬ TransGen (fun a b => b ∈ next a) x x) :
    explore next unseen [x] = x :: explore next unseen (next x) := by
  rw [explore, if_pos hx, List.append_nil]
  congr 1
  refine explore_congr (hnodup.erase x) hnodup fun w hw y hy => ?_
  have hne : y ≠ x := by
    rintro rfl
    exact hback (.head' hw hy)
  rw [List.mem_erase_of_ne hne]

omit [DecidableEq α] in
/-- Nothing from which every chain comes to an end lies on a cycle. -/
theorem not_transGen_self_of_acc {r : α → α → Prop} (h : Acc (fun b a => r a b) x) :
    ¬ TransGen r x x := by
  induction h with
  | intro x _ ih =>
    intro hcycle
    obtain ⟨y, hxy, hyx⟩ := TransGen.head'_iff.1 hcycle
    exact ih y hxy (.tail' hyx hxy)

/-- What has been seen without a value plays no part in what is met first. -/
theorem NothingFound.findSome?_explore_singleton (hknown : known.Nodup)
    (hacc : Acc (fun b a => b ∈ next a) x) (h : NothingFound next value known unseen) :
    (explore next unseen [x]).findSome? value = firstValue next value known x := by
  induction hacc generalizing unseen with
  | intro x hsuccessors ih =>
    have hback : ¬ TransGen (fun a b => b ∈ next a) x x :=
      not_transGen_self_of_acc (.intro x hsuccessors)
    have hvalue : ∀ unseen, NothingFound next value known unseen → x ∈ unseen →
        (explore next unseen [x]).findSome? value =
          (value x).or ((next x).findSome? (firstValue next value known)) := by
      intro unseen h hx
      rw [explore_singleton h.nodup hx hback, ← List.singleton_append, List.findSome?_append,
        List.findSome?_singleton, h.findSome?_explore fun b hb _ h => ih b hb h]
    by_cases hx : x ∈ unseen
    · rw [hvalue unseen h hx, firstValue, hvalue known (.start hknown) (h.subset hx)]
    · -- the search passes the place over, and a fresh one would find nothing behind it
      rw [explore, if_neg hx, explore, h.firstValue_eq_none hx]
      rfl

/-- The first value of a known place is its own or else the first one of its successors. -/
theorem firstValue_eq (hknown : known.Nodup) (hx : x ∈ known)
    (hacc : Acc (fun b a => b ∈ next a) x) :
    firstValue next value known x =
      (value x).or ((next x).findSome? (firstValue next value known)) := by
  have hstart : NothingFound next value known known := .start hknown
  rw [firstValue, explore_singleton hknown hx (not_transGen_self_of_acc hacc),
    ← List.singleton_append, List.findSome?_append, List.findSome?_singleton,
    hstart.findSome?_explore fun b hb _ h => h.findSome?_explore_singleton hknown (hacc.inv hb)]

omit [DecidableEq α] in
/-- Only finitely many places are known, so chains of successors that never lead back come to an
end. -/
theorem acc_of_acyclic {r : α → α → Prop} (hknown : ∀ a b, r a b → b ∈ known)
    (hacyclic : ∀ y, ReflTransGen r x y → ¬ TransGen r y y) : Acc (fun b a => r a b) x := by
  let Reached := { y // ReflTransGen r x y }
  have hfinite : Finite Reached := by
    refine Set.Finite.subset (List.finite_toSet (x :: known)) fun y hy => ?_
    rcases ReflTransGen.cases_tail hy with rfl | ⟨c, -, hstep⟩
    · exact List.mem_cons_self
    · exact List.mem_cons_of_mem _ (hknown c y hstep)
  -- on the places that are reached, to be led to is a strict order, hence well-founded
  let later (b a : Reached) : Prop := TransGen r a.1 b.1
  have htrans : IsTrans Reached later := ⟨fun _ _ _ hba hcb => hcb.trans hba⟩
  have hirrefl : Std.Irrefl later := ⟨fun y => hacyclic y.1 y.2⟩
  have hwf : WellFounded later := Finite.wellFounded_of_trans_of_irrefl later
  have hacc : ∀ y : Reached, Acc (fun b a => r a b) y.1 := fun y => by
    induction y using hwf.induction with
    | _ y ih => exact .intro y.1 fun b hb => ih ⟨b, y.2.tail hb⟩ (.single hb)
  exact hacc ⟨x, .refl⟩

end FirstValue

/-! ### Configurations that extend each other -/

namespace Project

variable {β : Type} {nodes : Nodes} {path : String}

/-- A configuration that can be read has an entry that names another file of the project. -/
def Extends (nodes : Nodes) (path base : String) : Prop :=
  ∃ config, compilerConfig? nodes path = some config ∧
    ∃ entry ∈ config.bases, baseConfig? nodes path entry = some base

/-- What the configuration at a path has for a setting, of which `own` says what a configuration has
itself: its own value or, failing that, the one that it inherits through the last of its entries
that has one. A file that cannot be read has none. -/
inductive Inherits (nodes : Nodes) (own : String → CompilerConfig → Option β) :
    String → Option β → Prop
  | unreadable {path : String} : compilerConfig? nodes path = none → Inherits nodes own path none
  | own {path : String} {config : CompilerConfig} {v : β} :
    compilerConfig? nodes path = some config → own path config = some v →
      Inherits nodes own path (some v)
  | inherited {path base entry : String} {config : CompilerConfig} {before after : List String}
    {v : β} :
    compilerConfig? nodes path = some config → own path config = none →
      config.bases = before ++ entry :: after → baseConfig? nodes path entry = some base →
      Inherits nodes own base (some v) →
      (∀ later ∈ after, ∀ base, baseConfig? nodes path later = some base →
        Inherits nodes own base none) →
      Inherits nodes own path (some v)
  | missing {path : String} {config : CompilerConfig} :
    compilerConfig? nodes path = some config → own path config = none →
      (∀ entry ∈ config.bases, ∀ base, baseConfig? nodes path entry = some base →
        Inherits nodes own base none) →
      Inherits nodes own path none

/-- The base directory that a configuration gives, if it lies inside the project. -/
def ownBase (path : String) (config : CompilerConfig) : Option String :=
  config.baseUrl.bind (Path.join? (Path.parent path))

/-- The configuration itself, if it maps paths. -/
def ownPaths (path : String) (config : CompilerConfig) : Option (String × CompilerConfig) :=
  if config.paths.isSome then some (path, config) else none

/-- The bases of a configuration are those that it extends. -/
theorem mem_baseConfigs {base : String} :
    base ∈ baseConfigs nodes path ↔ Extends nodes path base := by
  unfold baseConfigs Extends
  cases compilerConfig? nodes path with
  | none => simp
  | some config => simp

/-- An entry leads to a file of the project or nowhere. -/
theorem mem_keys_of_extends {base : String} (h : Extends nodes path base) : base ∈ nodes.keys := by
  obtain ⟨config, -, entry, -, hbase⟩ := h
  unfold baseConfig? at hbase
  split at hbase
  · obtain ⟨candidate, -, hfind⟩ := Option.bind_eq_some_iff.1 hbase
    exact StringMap.contains_iff_mem_keys.1 (List.find?_some hfind)
  · cases hbase

theorem mem_keys_of_compilerConfig? {config : CompilerConfig}
    (h : compilerConfig? nodes path = some config) : path ∈ nodes.keys := by
  obtain ⟨text, htext, -⟩ := Option.bind_eq_some_iff.1 h
  obtain ⟨node, hnode, -⟩ := Option.bind_eq_some_iff.1 htext
  exact StringMap.mem_keys.2 ⟨node, hnode⟩

/-! ### The chain -/

theorem nodup_keys (nodes : Nodes) : nodes.keys.Nodup := StringMap.nodup_of_sorted nodes.sorted

/-- The chain has the readable configurations of the search, in its order. -/
theorem map_fst_configChain_sublist :
    ((configChain nodes path).map Prod.fst).Sublist
      (explore (baseConfigs nodes) nodes.keys [path]) := by
  unfold configChain
  generalize explore (baseConfigs nodes) nodes.keys [path] = visited
  induction visited with
  | nil => exact .slnil
  | cons p visited ih =>
    rw [List.filterMap_cons]
    cases compilerConfig? nodes p with
    | none => exact ih.cons p
    | some config => exact ih.cons_cons p

/-- A file that is not known is not visited, but there is nothing to read in it either. -/
theorem mem_configChain {p : String} {config : CompilerConfig} :
    (p, config) ∈ configChain nodes path ↔
      compilerConfig? nodes p = some config ∧ ReflTransGen (Extends nodes) path p := by
  have hclosed : ∀ a, ∀ b ∈ baseConfigs nodes a, b ∈ nodes.keys :=
    fun a b hb => mem_keys_of_extends (mem_baseConfigs.1 hb)
  have hextends : (fun a b => b ∈ baseConfigs nodes a) = Extends nodes := by
    funext a b
    exact propext mem_baseConfigs
  simp only [configChain, List.mem_filterMap, Option.map_eq_some_iff, Prod.mk.injEq,
    mem_explore_iff_of_closed hclosed, hextends, List.mem_singleton, exists_eq_left]
  constructor
  · intro h
    obtain ⟨q, ⟨-, hchain⟩, c, hq, rfl, rfl⟩ := h
    exact ⟨hq, hchain⟩
  · intro h
    obtain ⟨hp, hchain⟩ := h
    -- the search starts only at a known file; whichever file the chain starts with has been read
    refine ⟨p, ⟨?_, hchain⟩, config, hp, rfl, rfl⟩
    rcases hchain.cases_head with rfl | ⟨_, ⟨c, hc, -⟩, -⟩
    · exact mem_keys_of_compilerConfig? hp
    · exact mem_keys_of_compilerConfig? hc

/-- The setting that the first configuration of a chain has. -/
def chainSetting (own : String → CompilerConfig → Option β) (nodes : Nodes) (path : String) :
    Option β :=
  (configChain nodes path).findSome? fun entry => own entry.1 entry.2

theorem chainBase?_eq : chainBase? (configChain nodes path) = chainSetting ownBase nodes path := rfl

theorem chainOwner?_eq :
    chainOwner? (configChain nodes path) = chainSetting ownPaths nodes path := by
  unfold chainOwner? chainSetting
  rw [List.find?_eq_findSome?_guard]
  rfl

theorem findSome?_filterMap {α γ : Type} (l : List α) (f : α → Option γ) (g : γ → Option β) :
    (l.filterMap f).findSome? g = l.findSome? fun a => (f a).bind g := by
  rw [← List.head?_filterMap, List.filterMap_filterMap, List.head?_filterMap]

section Recursion

variable {own : String → CompilerConfig → Option β}

/-- A setting of the chain is the first value that the search comes upon. -/
theorem chainSetting_eq_firstValue : chainSetting own nodes = firstValue (baseConfigs nodes)
    (fun p => (compilerConfig? nodes p).bind (own p)) nodes.keys := by
  funext path
  rw [chainSetting, configChain, findSome?_filterMap, firstValue]
  congr 1
  funext p
  cases compilerConfig? nodes p <;> rfl

/-- A configuration that cannot be read has no settings and no bases. -/
theorem chainSetting_of_unreadable (h : compilerConfig? nodes path = none) :
    chainSetting own nodes path = none := by
  refine List.findSome?_eq_none_iff.2 fun entry hentry => ?_
  obtain ⟨hconfig, hchain⟩ := mem_configChain.1 hentry
  rcases hchain.cases_head with heq | ⟨_, ⟨c, hc, -⟩, -⟩
  · rw [← heq, h] at hconfig
    cases hconfig
  · rw [h] at hc
    cases hc

/-- The setting of a chain obeys the recursion of inheritance: the own value first, then the entries
from the last one to the first. -/
theorem chainSetting_of_readable {config : CompilerConfig}
    (h : compilerConfig? nodes path = some config)
    (hacc : Acc (fun b a => Extends nodes a b) path) :
    chainSetting own nodes path = (own path config).or (config.bases.reverse.findSome? fun entry =>
      (baseConfig? nodes path entry).bind (chainSetting own nodes)) := by
  have hbases : baseConfigs nodes path =
      config.bases.reverse.filterMap (baseConfig? nodes path) := by
    rw [baseConfigs, h, List.filterMap_reverse]
  have hacc : Acc (fun b a => b ∈ baseConfigs nodes a) path := by
    simpa only [mem_baseConfigs] using hacc
  have hkey := mem_keys_of_compilerConfig? h
  rw [chainSetting_eq_firstValue, firstValue_eq (nodup_keys nodes) hkey hacc, h, Option.bind_some,
    hbases, findSome?_filterMap]

/-- The search finds what is inherited. The induction is on the bases of a configuration; its own
value counts first, then that of the last base that has one. -/
theorem inherits_chainSetting (hacc : Acc (fun b a => Extends nodes a b) path) :
    Inherits nodes own path (chainSetting own nodes path) := by
  induction hacc with
  | intro path hbases ih =>
    cases hconfig : compilerConfig? nodes path with
    | none =>
      rw [chainSetting_of_unreadable hconfig]
      exact .unreadable hconfig
    | some config =>
      have hnext : ∀ entry ∈ config.bases, ∀ base, baseConfig? nodes path entry = some base →
          Inherits nodes own base (chainSetting own nodes base) := fun entry hentry base hbase =>
        ih base ⟨config, hconfig, entry, hentry, hbase⟩
      rw [chainSetting_of_readable hconfig (.intro path hbases)]
      cases hown : own path config with
      | some v => exact .own hconfig hown
      | none =>
        rw [Option.none_or]
        cases hfound : config.bases.reverse.findSome? fun entry =>
            (baseConfig? nodes path entry).bind (chainSetting own nodes) with
        | none =>
          refine .missing hconfig hown fun entry hentry base hbase => ?_
          have hnone := List.findSome?_eq_none_iff.1 hfound entry (List.mem_reverse.2 hentry)
          rw [hbase, Option.bind_some] at hnone
          exact hnone ▸ hnext entry hentry base hbase
        | some v =>
          -- the entries were searched from the last one on, so what came before `entry` stands
          -- behind it in the configuration
          obtain ⟨after, entry, before, hsplit, hentry, hafter⟩ :=
            List.findSome?_eq_some_iff.1 hfound
          obtain ⟨base, hbase, hvalue⟩ := Option.bind_eq_some_iff.1 hentry
          have hlist : config.bases = before.reverse ++ entry :: after.reverse := by
            rw [← List.reverse_reverse config.bases, hsplit]
            simp
          have hmem : entry ∈ config.bases := by simp [hlist]
          refine .inherited hconfig hown hlist hbase (hvalue ▸ hnext entry hmem base hbase) ?_
          intro later hlater base hbase
          have hnone := hafter later (List.mem_reverse.1 hlater)
          rw [hbase, Option.bind_some] at hnone
          exact hnone ▸ hnext later (by simp [hlist, List.mem_reverse.1 hlater]) base hbase

/-- What is inherited is found, by induction on how it is inherited. -/
theorem eq_chainSetting_of_inherits {r : Option β} (h : Inherits nodes own path r)
    (hacc : Acc (fun b a => Extends nodes a b) path) : r = chainSetting own nodes path := by
  induction h with
  | unreadable hconfig => exact (chainSetting_of_unreadable hconfig).symm
  | own hconfig hown => rw [chainSetting_of_readable hconfig hacc, hown, Option.some_or]
  | @inherited path base entry config before after v hconfig hown hlist hbase _ _ ihbase ihafter =>
    have hmem : ∀ e ∈ entry :: after, e ∈ config.bases := by simp +contextual [hlist]
    have hvalue : some v = chainSetting own nodes base :=
      ihbase (hacc.inv ⟨config, hconfig, entry, hmem entry List.mem_cons_self, hbase⟩)
    -- the bases behind this one are asked first, and they have no value
    have hafter : after.reverse.findSome? (fun entry =>
        (baseConfig? nodes path entry).bind (chainSetting own nodes)) = none := by
      refine List.findSome?_eq_none_iff.2 fun later hlater => ?_
      rw [List.mem_reverse] at hlater
      refine Option.bind_eq_none_iff.2 fun base hbase => ?_
      exact (ihafter later hlater base hbase
        (hacc.inv ⟨config, hconfig, later, hmem later (List.mem_cons_of_mem _ hlater), hbase⟩)).symm
    rw [chainSetting_of_readable hconfig hacc, hown, Option.none_or, hlist, List.reverse_append,
      List.reverse_cons, List.append_assoc, List.findSome?_append, hafter, Option.none_or,
      List.singleton_append, List.findSome?_cons, hbase, Option.bind_some, ← hvalue]
  | @missing path config hconfig hown _ ih =>
    rw [chainSetting_of_readable hconfig hacc, hown, Option.none_or]
    refine (List.findSome?_eq_none_iff.2 fun entry hentry => ?_).symm
    refine Option.bind_eq_none_iff.2 fun base hbase => ?_
    have hentry := List.mem_reverse.1 hentry
    exact (ih entry hentry base hbase
      (hacc.inv ⟨config, hconfig, entry, hentry, hbase⟩)).symm

theorem inherits_iff (hacyclic : ∀ p, ReflTransGen (Extends nodes) path p →
      ¬ TransGen (Extends nodes) p p) {r : Option β} :
    Inherits nodes own path r ↔ r = chainSetting own nodes path := by
  have hacc : Acc (fun b a => Extends nodes a b) path :=
    acc_of_acyclic (fun _ _ h => mem_keys_of_extends h) hacyclic
  exact ⟨fun h => eq_chainSetting_of_inherits h hacc, fun h => h ▸ inherits_chainSetting hacc⟩

end Recursion

/-- **Inheritance of compiler configurations.** The chain of a configuration lists no file twice. It
lists exactly the readable ones among the configuration itself and what it extends at any distance,
whether the files extend each other in a circle or not. Where none of them extends itself, the base
directory and the path mappings that count are the inherited ones. -/
theorem configChain_follows_inheritance (nodes : Nodes) (path : String) :
    ((configChain nodes path).map Prod.fst).Nodup ∧
      (∀ p config, (p, config) ∈ configChain nodes path ↔
        compilerConfig? nodes p = some config ∧ ReflTransGen (Extends nodes) path p) ∧
      ((∀ p, ReflTransGen (Extends nodes) path p → ¬ TransGen (Extends nodes) p p) →
        (∀ base, Inherits nodes ownBase path base ↔ base = chainBase? (configChain nodes path)) ∧
        ∀ owner, Inherits nodes ownPaths path owner ↔
          owner = chainOwner? (configChain nodes path)) := by
  refine ⟨?_, fun p config => mem_configChain, fun hacyclic => ⟨fun base => ?_, fun owner => ?_⟩⟩
  · exact (nodup_explore (nodup_keys nodes)).sublist map_fst_configChain_sublist
  · rw [chainBase?_eq]
    exact inherits_iff hacyclic
  · rw [chainOwner?_eq]
    exact inherits_iff hacyclic

/-- Two configurations with a common base, both extended by a third one. The base gives a directory,
the weaker one of its heirs maps paths. -/
def diamond : Nodes := .ofList [
  ("tsconfig.json", .file "tsconfig.json" "\x7b\"extends\": [\"./weak\", \"./strong.json\"]\x7d"),
  ("weak.json", .file "weak.json"
    "\x7b\"extends\": \"./base.json\", \"compilerOptions\": \x7b\"paths\": \x7b\x7d\x7d\x7d"),
  ("strong.json", .file "strong.json" "\x7b\"extends\": \"./base.json\"\x7d"),
  ("base.json", .file "base.json" "\x7b\"compilerOptions\": \x7b\"baseUrl\": \"src\"\x7d\x7d")]

theorem acyclic_diamond (p : String) : ¬ TransGen (Extends diamond) p p := by
  -- every configuration comes before those that it extends
  let rank (p : String) : Nat := ["base.json", "strong.json", "weak.json", "tsconfig.json"].idxOf p
  have hrank : ∀ p ∈ diamond.keys, ∀ q ∈ baseConfigs diamond p, rank q < rank p := by
    decide +kernel
  have hstep : ∀ p q, Extends diamond p q → rank q < rank p := by
    intro p q h
    obtain ⟨config, hconfig, -⟩ := id h
    exact hrank p (mem_keys_of_compilerConfig? hconfig) q (mem_baseConfigs.2 h)
  have hlt : ∀ p q, TransGen (Extends diamond) p q → rank q < rank p := by
    intro p q h
    induction h with
    | single h => exact hstep _ _ h
    | tail _ h ih => exact (hstep _ _ h).trans ih
  exact fun h => Nat.lt_irrefl _ (hlt p p h)

theorem inherits_diamond :
    Inherits diamond ownBase "tsconfig.json" (some "src") ∧
      ∃ config, Inherits diamond ownPaths "tsconfig.json" (some ("weak.json", config)) := by
  have hread : ∀ p bases baseUrl maps, (compilerConfig? diamond p).map
      (fun c => (c.bases, c.baseUrl, c.paths.isSome)) = some (bases, baseUrl, maps) →
      ∃ config, compilerConfig? diamond p = some config ∧ config.bases = bases ∧
        config.baseUrl = baseUrl ∧ config.paths.isSome = maps := by
    intro p bases baseUrl maps h
    obtain ⟨config, hconfig, hfields⟩ := Option.map_eq_some_iff.1 h
    simp only [Prod.mk.injEq] at hfields
    exact ⟨config, hconfig, hfields⟩
  obtain ⟨top, htop, htopBases, htopUrl, htopPaths⟩ :=
    hread "tsconfig.json" ["./weak", "./strong.json"] none false (by decide +kernel)
  obtain ⟨weak, hweak, -, -, hweakPaths⟩ :=
    hread "weak.json" ["./base.json"] none true (by decide +kernel)
  obtain ⟨strong, hstrong, hstrongBases, hstrongUrl, hstrongPaths⟩ :=
    hread "strong.json" ["./base.json"] none false (by decide +kernel)
  obtain ⟨base, hbase, hbaseBases, hbaseUrl, hbasePaths⟩ :=
    hread "base.json" [] (some "src") false (by decide +kernel)
  have hweakEntry : baseConfig? diamond "tsconfig.json" "./weak" = some "weak.json" := by
    decide +kernel
  have hstrongEntry : baseConfig? diamond "tsconfig.json" "./strong.json" = some "strong.json" := by
    decide +kernel
  have hbaseEntry : baseConfig? diamond "strong.json" "./base.json" = some "base.json" := by
    decide +kernel
  constructor
  · have hjoin : ownBase "base.json" base = some "src" := by
      rw [ownBase, hbaseUrl]
      decide +kernel
    have hinherited : Inherits diamond ownBase "strong.json" (some "src") :=
      .inherited hstrong (by simp [ownBase, hstrongUrl])
        (show strong.bases = [] ++ "./base.json" :: [] from hstrongBases) hbaseEntry
        (.own hbase hjoin) (by simp)
    exact .inherited htop (by simp [ownBase, htopUrl])
      (show top.bases = ["./weak"] ++ "./strong.json" :: [] from htopBases) hstrongEntry hinherited
      (by simp)
  · -- the stronger heir has been asked first, and through it the base, both without mappings
    refine ⟨weak, .inherited htop (by simp [ownPaths, htopPaths])
      (show top.bases = [] ++ "./weak" :: ["./strong.json"] from htopBases) hweakEntry
      (.own hweak (by simp [ownPaths, hweakPaths])) ?_⟩
    intro later hlater p hp
    rw [List.mem_singleton.1 hlater, hstrongEntry, Option.some.injEq] at hp
    subst hp
    refine .missing hstrong (by simp [ownPaths, hstrongPaths]) fun entry hentry p hp => ?_
    rw [hstrongBases, List.mem_singleton] at hentry
    rw [hentry, hbaseEntry, Option.some.injEq] at hp
    subst hp
    exact .missing hbase (by simp [ownPaths, hbasePaths]) (by simp [hbaseBases])

theorem configChain_diamond :
    (∀ p, ReflTransGen (Extends diamond) "tsconfig.json" p → ¬ TransGen (Extends diamond) p p) ∧
      chainBase? (configChain diamond "tsconfig.json") = some "src" ∧
      ∃ config, chainOwner? (configChain diamond "tsconfig.json") = some ("weak.json", config) := by
  have hacyclic : ∀ p, ReflTransGen (Extends diamond) "tsconfig.json" p →
      ¬ TransGen (Extends diamond) p p := fun p _ => acyclic_diamond p
  obtain ⟨-, -, hsettings⟩ := configChain_follows_inheritance diamond "tsconfig.json"
  obtain ⟨hbase, howner⟩ := hsettings hacyclic
  obtain ⟨hdirectory, config, hpaths⟩ := inherits_diamond
  exact ⟨hacyclic, ((hbase _).1 hdirectory).symm, config, ((howner _).1 hpaths).symm⟩

end Project

end DeadCode
