import DeadCode.Path.Ancestor
import DeadCode.Project.Basic
import DeadCode.Proofs.CleanPath

/-!
# DeadCode.Proofs.Scope

The directories that a project is divided into. Directories that hold one and the same path lie in
one another, so among them the longer one is the deeper one, and the first package in the order of
length that holds a path is the innermost (`Project.packageRoot_deepest`).

The root is made from segments. What the lists of segments have in common is the greatest lower
bound with respect to prefixes (`prefix_commonSegments_iff`); this makes it independent of the order
of the paths and gives the greatest directory that holds them all.
-/

namespace DeadCode

open Text

/-! ### Directories in directories -/

namespace Path

variable {path dir other : String}

theorem isWithin_iff_exists :
    isWithin path dir = true ↔ dir = "" ∨ ∃ rest, path = dir ++ "/" ++ rest := by
  simp only [isWithin, Bool.or_eq_true, String.isEmpty_iff, Option.isSome_iff_exists,
    below?_eq_some_iff]

theorem isWithin_trans (h : isWithin path dir = true) (hdir : isWithin dir other = true) :
    isWithin path other = true := by
  rw [isWithin_iff_exists] at h hdir ⊢
  rcases hdir with hother | ⟨rest, rfl⟩
  · exact .inl hother
  · rcases h with hempty | ⟨more, rfl⟩
    · simp at hempty
    · exact .inr ⟨rest ++ "/" ++ more, by simp [String.append_assoc]⟩

/-- Of two directories that hold one path, one lies in the other. -/
theorem isWithin_or_isWithin (hdir : isWithin path dir = true)
    (hother : isWithin path other = true) :
    other = dir ∨ isWithin dir other = true ∨ isWithin other dir = true := by
  rcases isWithin_iff.1 hdir with rfl | hdir
  · exact .inr (.inr rfl)
  rcases isWithin_iff.1 hother with rfl | hother
  · exact .inr (.inl rfl)
  have hstart : dir.toList <+: path.toList := (List.prefix_append _ _).trans hdir
  have hstart' : other.toList <+: path.toList := (List.prefix_append _ _).trans hother
  rcases Nat.lt_trichotomy other.toList.length dir.toList.length with hlt | heq | hlt
  · have hstarts : other.toList ++ ['/'] <+: dir.toList :=
      List.prefix_of_prefix_length_le hother hstart (by rw [List.length_append]; exact hlt)
    exact .inr (.inl (isWithin_iff.2 (.inr hstarts)))
  · have hstarts := List.prefix_of_prefix_length_le hstart' hstart (Nat.le_of_eq heq)
    exact .inl (String.toList_inj.1 (hstarts.eq_of_length heq))
  · have hstarts : dir.toList ++ ['/'] <+: other.toList :=
      List.prefix_of_prefix_length_le hdir hstart' (by rw [List.length_append]; exact hlt)
    exact .inr (.inr (isWithin_iff.2 (.inr hstarts)))

theorem utf8ByteSize_lt_of_isWithin (h : isWithin path dir = true) (hne : path ≠ dir) :
    dir.utf8ByteSize < path.utf8ByteSize := by
  rcases isWithin_iff_exists.1 h with rfl | ⟨rest, rfl⟩
  · exact Nat.pos_of_ne_zero fun hzero => hne (String.utf8ByteSize_eq_zero_iff.1 hzero)
  · have hslash : "/".utf8ByteSize = 1 := rfl
    simp only [String.utf8ByteSize_append, hslash]
    omega

/-- What holds a path holds its parent, unless it is the parent. -/
theorem isWithin_parent_of_isWithin (h : isWithin path dir = true) :
    dir = parent path ∨ isWithin (parent path) dir = true := by
  rcases isWithin_iff_exists.1 h with rfl | ⟨rest, rfl⟩
  · exact .inr rfl
  · by_cases hrest : '/' ∈ rest.toList
    · obtain ⟨before, name, hrest, hname⟩ := exists_last_of_mem hrest
      right
      have hcut : (dir ++ "/" ++ rest).toList = (dir.toList ++ '/' :: before) ++ '/' :: name := by
        simp [hrest]
      rw [parent, hcut, cutLast_append_cons hname, isWithin_iff, String.toList_ofList]
      exact .inr ⟨before, by simp⟩
    · left
      have hcut : (dir ++ "/" ++ rest).toList = dir.toList ++ '/' :: rest.toList := by simp
      rw [parent, hcut, cutLast_append_cons hrest]
      exact String.ofList_toList.symm

/-- The directories above a directory are those that hold it. -/
theorem mem_ancestors_iff : other ∈ ancestors dir ↔ other = dir ∨ isWithin dir other = true := by
  fun_induction ancestors dir with
  | case1 =>
    have hnone : ¬ ∃ rest, "" = other ++ "/" ++ rest := by
      intro h
      obtain ⟨rest, hrest⟩ := h
      simpa using congrArg String.toList hrest
    rw [List.mem_singleton, isWithin_iff_exists, or_iff_left hnone, or_self]
  | case2 dir hdir ih =>
    rw [List.mem_cons, ih]
    refine or_congr_right ⟨fun h => ?_, isWithin_parent_of_isWithin⟩
    rcases h with rfl | h
    · exact isWithin_parent dir
    · exact isWithin_trans (isWithin_parent dir) h

theorem eq_append_relativeTo (hne : dir ≠ "") (h : isWithin path dir = true) :
    path = dir ++ "/" ++ relativeTo dir path := by
  obtain ⟨rest, hrest⟩ := (isWithin_iff_exists.1 h).resolve_left hne
  rw [relativeTo, if_neg (by simpa using hne), below?_eq_some_iff.2 hrest, Option.getD_some]
  exact hrest

/-! ### Segments -/

theorem segments_ne_nil (path : String) : segments path ≠ [] := by
  rw [segments, ne_eq, List.map_eq_nil_iff]
  exact splitOn_ne_nil '/' _

theorem noSlash_of_mem_segments {path segment : String} (h : segment ∈ segments path) :
    '/' ∉ segment.toList := by
  obtain ⟨piece, hpiece, rfl⟩ := List.mem_map.1 h
  rw [String.toList_ofList]
  exact not_mem_of_mem_splitOn hpiece

theorem toList_intercalate_slash (names : List String) :
    ("/".intercalate names).toList = joinWith ['/'] (names.map String.toList) := by
  rw [String.toList_intercalate, joinWith_eq_intercalate]
  rfl

theorem intercalate_segments (path : String) : "/".intercalate (segments path) = path := by
  apply String.toList_inj.1
  rw [toList_intercalate_slash, segments, List.map_map]
  simp

theorem segments_intercalate {names : List String} (hne : names ≠ [])
    (h : ∀ name ∈ names, '/' ∉ name.toList) : segments ("/".intercalate names) = names := by
  have hpieces : ∀ piece ∈ names.map String.toList, '/' ∉ piece := by simpa using h
  rw [segments, toList_intercalate_slash, splitOn_joinWith hpieces (by simpa using hne),
    List.map_map]
  simp

/-- The first segments of a directory are the directory itself or one that holds it. -/
theorem eq_or_isWithin_of_startsWith {names : List String} {dir : String}
    (h : names <+: segments dir) :
    "/".intercalate names = dir ∨ isWithin dir ("/".intercalate names) = true := by
  obtain ⟨more, hmore⟩ := h
  by_cases hnames : names = []
  · subst hnames
    exact .inr rfl
  by_cases hnil : more = []
  · subst hnil
    rw [List.append_nil] at hmore
    exact .inl (hmore ▸ intercalate_segments dir)
  · right
    have hdir : dir.toList =
        ("/".intercalate names).toList ++ '/' :: ("/".intercalate more).toList := by
      rw [← intercalate_segments dir, ← hmore, toList_intercalate_slash, List.map_append,
        joinWith_append (by simpa using hnames) (by simpa using hnil),
        ← toList_intercalate_slash, ← toList_intercalate_slash]
    rw [isWithin_iff, hdir]
    exact .inr ⟨("/".intercalate more).toList, List.append_assoc ..⟩

end Path

/-! ### Packages -/

namespace Project

/-- Of some directories, `dir` is the deepest one that holds a path: the others that hold it are
`dir` itself or above it. -/
structure IsDeepest (dirs : List String) (path dir : String) : Prop where
  mem : dir ∈ dirs
  holds : Path.isWithin path dir = true
  above : ∀ other ∈ dirs, Path.isWithin path other = true → other ∈ Path.ancestors dir

/-- In the order of length, the first directory that holds a path is the deepest one. -/
theorem isDeepest_of_find? {dirs : List String} {path dir : String}
    (hsorted : dirs.Pairwise fun a b => b.utf8ByteSize ≤ a.utf8ByteSize)
    (h : dirs.find? (Path.isWithin path) = some dir) : IsDeepest dirs path dir := by
  obtain ⟨hholds, before, behind, rfl, hbefore⟩ := List.find?_eq_some_iff_append.1 h
  refine ⟨by simp, hholds, fun other hother hwithin => ?_⟩
  -- a directory before it does not hold the path, so the other one is not longer
  have hle : other.utf8ByteSize ≤ dir.utf8ByteSize := by
    rcases List.mem_append.1 hother with hmem | hmem
    · have hnot := hbefore other hmem
      rw [hwithin] at hnot
      cases hnot
    · rcases List.mem_cons.1 hmem with rfl | hmem
      · exact Nat.le_refl _
      · exact (List.pairwise_cons.1 (List.pairwise_append.1 hsorted).2.1).1 other hmem
  rw [Path.mem_ancestors_iff]
  rcases Path.isWithin_or_isWithin hholds hwithin with heq | hin | hin
  · exact .inl heq
  · exact .inr hin
  · by_cases heq : other = dir
    · exact .inl heq
    · exact absurd (Path.utf8ByteSize_lt_of_isWithin hin heq) (Nat.not_lt.2 hle)

theorem mem_packageRootsOf {manifests : List String} {dir : String} :
    dir ∈ packageRootsOf manifests ↔ ∃ manifest ∈ manifests, Path.parent manifest = dir := by
  rw [packageRootsOf, List.mem_mergeSort, ← StringSet.mem_iff, StringSet.mem_ofList, List.mem_map]

theorem nodup_packageRootsOf (manifests : List String) : (packageRootsOf manifests).Nodup := by
  refine (List.mergeSort_perm _ _).nodup_iff.2 ?_
  exact (StringSet.sorted _).imp String.ne_of_lt

/-- Package roots are tried from the longest to the shortest. -/
theorem pairwise_packageRootsOf (manifests : List String) :
    (packageRootsOf manifests).Pairwise fun a b => b.utf8ByteSize ≤ a.utf8ByteSize := by
  have htrans : ∀ a b c : String, decide (b.utf8ByteSize ≤ a.utf8ByteSize) = true →
      decide (c.utf8ByteSize ≤ b.utf8ByteSize) = true →
        decide (c.utf8ByteSize ≤ a.utf8ByteSize) = true := by
    simp only [decide_eq_true_eq]
    omega
  have htotal : ∀ a b : String, (decide (b.utf8ByteSize ≤ a.utf8ByteSize) ||
      decide (a.utf8ByteSize ≤ b.utf8ByteSize)) = true := by
    simp only [Bool.or_eq_true, decide_eq_true_eq]
    omega
  exact (List.pairwise_mergeSort htrans htotal _).imp of_decide_eq_true

variable {p : Project} {path : String}

/-- Where packages hold a path, its package is the deepest of them. -/
theorem packageRoot_of_exists
    (hsorted : p.packageRoots.Pairwise fun a b => b.utf8ByteSize ≤ a.utf8ByteSize)
    (h : ∃ dir ∈ p.packageRoots, Path.isWithin path dir = true) :
    IsDeepest p.packageRoots path (p.packageRoot path) := by
  obtain ⟨dir, hfind⟩ := Option.isSome_iff_exists.1 (List.find?_isSome.2 h)
  rw [packageRoot, hfind]
  exact isDeepest_of_find? hsorted hfind

theorem packageRoot_of_not_exists (h : ¬ ∃ dir ∈ p.packageRoots, Path.isWithin path dir = true) :
    p.packageRoot path = p.root := by
  rw [← List.find?_isSome, Bool.not_eq_true, Option.isSome_eq_false_iff, Option.isNone_iff_eq_none]
    at h
  rw [packageRoot, h, Option.getD_none]

theorem packageRoots_ofFiles (config : Config) (files : List SourceNode) :
    (ofFiles config files).packageRoots =
      packageRootsOf ((ofFiles config files).paths.filter Path.isManifest) := rfl

/-- The packages of a project are the directories of its manifests, each of them once. The package
of a path is the deepest one that holds the path, with the path as seen from there below it, and the
root where no package holds the path. -/
theorem packageRoot_deepest (config : Config) (files : List SourceNode) (path : String) :
    (ofFiles config files).packageRoots.Nodup ∧
    (∀ dir, dir ∈ (ofFiles config files).packageRoots ↔
      ∃ manifest ∈ (ofFiles config files).paths,
        Path.isManifest manifest = true ∧ Path.parent manifest = dir) ∧
    ((∃ dir ∈ (ofFiles config files).packageRoots, Path.isWithin path dir = true) →
      IsDeepest (ofFiles config files).packageRoots path
          ((ofFiles config files).packageRoot path) ∧
        ((ofFiles config files).packageRoot path ≠ "" →
          path = (ofFiles config files).packageRoot path ++ "/" ++
            (ofFiles config files).packageRelative path)) ∧
    ((¬ ∃ dir ∈ (ofFiles config files).packageRoots, Path.isWithin path dir = true) →
      (ofFiles config files).packageRoot path = (ofFiles config files).root) := by
  have hroots := packageRoots_ofFiles config files
  refine ⟨?_, fun dir => ?_, fun h => ?_, packageRoot_of_not_exists⟩
  · rw [hroots]
    exact nodup_packageRootsOf _
  · rw [hroots, mem_packageRootsOf]
    simp only [List.mem_filter, and_assoc]
  · have hdeepest := packageRoot_of_exists (by rw [hroots]; exact pairwise_packageRootsOf _) h
    exact ⟨hdeepest, fun hne => Path.eq_append_relativeTo hne hdeepest.holds⟩

/-- A package inside another one, beside a package with a similar name. -/
def nestedPackages : List SourceNode :=
  [.file "ui/package.json" "", .file "ui-kit/package.json" "",
    .file "ui-kit/icons/package.json" ""]

theorem paths_nestedPackages :
    (ofFiles .default nestedPackages).paths =
      ["ui-kit/icons/package.json", "ui-kit/package.json", "ui/package.json"] := by
  decide

theorem packageRoot_nestedPackages :
    (∃ dir ∈ (ofFiles .default nestedPackages).packageRoots,
      Path.isWithin "ui-kit/icons/src/a.ts" dir = true) ∧
    (ofFiles .default nestedPackages).packageRoot "ui-kit/icons/src/a.ts" = "ui-kit/icons" ∧
    "ui-kit/icons/src/a.ts" = "ui-kit/icons" ++ "/" ++
      (ofFiles .default nestedPackages).packageRelative "ui-kit/icons/src/a.ts" := by
  obtain ⟨-, hmem, hdeepest, -⟩ :=
    packageRoot_deepest .default nestedPackages "ui-kit/icons/src/a.ts"
  rw [paths_nestedPackages] at hmem
  have hicons : "ui-kit/icons" ∈ (ofFiles .default nestedPackages).packageRoots :=
    (hmem _).2 ⟨"ui-kit/icons/package.json", by simp, by decide, by decide⟩
  have hwithin : Path.isWithin "ui-kit/icons/src/a.ts" "ui-kit/icons" = true := by decide
  obtain ⟨⟨hroot, hholds, habove⟩, hrelative⟩ := hdeepest ⟨_, hicons, hwithin⟩
  have heq : (ofFiles .default nestedPackages).packageRoot "ui-kit/icons/src/a.ts" =
      "ui-kit/icons" := by
    have hicons := Path.mem_ancestors_iff.1 (habove _ hicons hwithin)
    obtain ⟨manifest, hmanifest, -, hparent⟩ := (hmem _).1 hroot
    rw [← hparent] at hicons hholds ⊢
    simp only [List.mem_cons, List.not_mem_nil, or_false] at hmanifest
    rcases hmanifest with rfl | rfl | rfl
    · decide
    · exact absurd hicons (by decide)
    · exact absurd hholds (by decide)
  rw [heq] at hrelative
  exact ⟨⟨_, hicons, hwithin⟩, heq, hrelative (by decide)⟩

/-! ### The root -/

section CommonPrefix

variable {xs ys zs : List String}

/-- The common prefix is the longest that both lists start with. -/
theorem prefix_commonPrefix_iff : zs <+: commonPrefix xs ys ↔ zs <+: xs ∧ zs <+: ys := by
  fun_induction commonPrefix xs ys generalizing zs with
  | case1 x xs ys ih =>
    cases zs with
    | nil => simp
    | cons z zs => simp only [List.cons_prefix_cons, ih, ← and_and_left]
  | case2 x xs y ys hne =>
    cases zs with
    | nil => simp
    | cons z zs =>
      simp only [List.prefix_nil, List.cons_prefix_cons, reduceCtorEq, false_iff]
      intro h
      exact hne (h.1.1.symm.trans h.2.1)
  | case3 xs ys hcons =>
    cases xs with
    | nil => simp +contextual
    | cons x xs =>
      cases ys with
      | nil => simp +contextual
      | cons y ys => exact absurd rfl (hcons x xs y ys rfl)

theorem prefix_foldl_commonPrefix_iff (lists : List (List String)) (first : List String) :
    zs <+: lists.foldl commonPrefix first ↔ zs <+: first ∧ ∀ l ∈ lists, zs <+: l := by
  induction lists generalizing first with
  | nil => simp
  | cons l lists ih =>
    rw [List.foldl_cons, ih, prefix_commonPrefix_iff, List.forall_mem_cons, and_assoc]

end CommonPrefix

/-- The segments that the directories of all paths start with. -/
def commonSegments : List String → List String
  | [] => []
  | path :: paths => (paths.map directorySegments).foldl commonPrefix (directorySegments path)

theorem commonDirectory_eq (paths : List String) :
    commonDirectory paths = "/".intercalate (commonSegments paths) := by
  cases paths <;> rfl

/-- The common segments are the greatest ones that all directories start with. -/
theorem prefix_commonSegments_iff {paths zs : List String} (hne : paths ≠ []) :
    zs <+: commonSegments paths ↔ ∀ path ∈ paths, zs <+: directorySegments path := by
  obtain ⟨path, paths, rfl⟩ := List.exists_cons_of_ne_nil hne
  rw [commonSegments, prefix_foldl_commonPrefix_iff, List.forall_mem_cons, List.forall_mem_map]

theorem prefix_directorySegments {paths : List String} {path : String} (h : path ∈ paths) :
    commonSegments paths <+: directorySegments path :=
  (prefix_commonSegments_iff (List.ne_nil_of_mem h)).1 List.prefix_rfl path h

/-- The order of the files does not matter for their common directory. -/
theorem commonSegments_perm {paths others : List String} (h : others.Perm paths) :
    commonSegments others = commonSegments paths := by
  by_cases hne : paths = []
  · subst hne
    rw [List.perm_nil.1 h]
  · have hne' : others ≠ [] := fun hnil => hne (List.nil_perm.1 (hnil ▸ h))
    have hle : commonSegments others <+: commonSegments paths :=
      (prefix_commonSegments_iff hne).2 fun path hpath =>
        prefix_directorySegments (h.mem_iff.2 hpath)
    have hge : commonSegments paths <+: commonSegments others :=
      (prefix_commonSegments_iff hne').2 fun path hpath =>
        prefix_directorySegments (h.mem_iff.1 hpath)
    exact hle.eq_of_length_le hge.length_le

/-- The common directory holds every path. Whatever the directories of all paths start with, the
common directory starts with too, and the order of the paths makes no difference. -/
theorem commonDirectory_greatest {paths : List String} (hne : paths ≠ []) :
    (∀ path ∈ paths, Path.isWithin path (commonDirectory paths) = true) ∧
    (∀ dir, (∀ path ∈ paths, Path.segments dir <+: Path.segments (Path.parent path)) →
      Path.segments dir <+: Path.segments (commonDirectory paths)) ∧
    ∀ others, others.Perm paths → commonDirectory others = commonDirectory paths := by
  refine ⟨fun path hpath => ?_, fun dir hdir => ?_, fun others hperm => ?_⟩
  · have hparent := Path.isWithin_parent path
    rw [commonDirectory_eq]
    rcases Path.eq_or_isWithin_of_startsWith (prefix_directorySegments hpath) with heq | hwithin
    · rwa [heq]
    · exact Path.isWithin_trans hparent hwithin
  · have hstarts : Path.segments dir <+: commonSegments paths :=
      (prefix_commonSegments_iff hne).2 hdir
    -- `dir` has a segment, so the common segments can be read back from their text
    have hnames : commonSegments paths ≠ [] := fun hnil =>
      Path.segments_ne_nil dir (List.prefix_nil.1 (hnil ▸ hstarts))
    have hslash : ∀ name ∈ commonSegments paths, '/' ∉ name.toList := by
      obtain ⟨path, hpath⟩ := List.exists_mem_of_ne_nil paths hne
      exact fun name hname =>
        Path.noSlash_of_mem_segments ((prefix_directorySegments hpath).subset hname)
    rwa [commonDirectory_eq, Path.segments_intercalate hnames hslash]
  · rw [commonDirectory_eq, commonDirectory_eq, commonSegments_perm hperm]

/-- Directories with similar names have only the directory above them in common. -/
theorem commonDirectory_similar :
    commonDirectory ["/p/src/a.ts", "/p/src-old/b.ts"] = "/p" ∧
      Path.isWithin "/p/src-old/b.ts" "/p" = true ∧
      commonDirectory ["/p/src-old/b.ts", "/p/src/a.ts"] = "/p" := by
  have heq : commonDirectory ["/p/src/a.ts", "/p/src-old/b.ts"] = "/p" := by decide
  obtain ⟨hwithin, -, hperm⟩ :=
    commonDirectory_greatest (List.cons_ne_nil "/p/src/a.ts" ["/p/src-old/b.ts"])
  rw [heq] at hwithin hperm
  exact ⟨heq, hwithin _ (by simp), hperm _ (.swap ..)⟩

end Project

end DeadCode
