import DeadCode.Proofs.RelativeImport
import DeadCode.Resolver.Python
import Mathlib.Data.List.Basic

/-!
# DeadCode.Proofs.PythonLookup

Imports of Python modules. An import with leading dots climbs one directory less than it has dots
and is looked up there and nowhere else. An import without dots is looked up in the directory of the
file and in those above it, the nearest first, so it leads to a module unless a nearer directory has
one of that name (`Resolver.python_import_resolves`).
-/

namespace DeadCode

open Text

/-! ### Directories above a file -/

namespace Path

variable {dir path : String} {levels : Nat}

/-- The directory some levels up. -/
def up : Nat → String → String
  | 0, dir => dir
  | levels + 1, dir => up levels (parent dir)

/-- As long as the top is not passed, climbing leads up. -/
theorem climb?_eq_up (h : ∀ level < levels, up level dir ≠ "") :
    climb? levels dir = some (up levels dir) := by
  induction levels generalizing dir with
  | zero => rfl
  | succ levels ih =>
    have hdir : dir ≠ "" := h 0 (Nat.succ_pos levels)
    rw [climb?, if_neg (mt String.isEmpty_iff.1 hdir), up]
    exact ih fun level hlevel => h (level + 1) (Nat.succ_lt_succ hlevel)

/-- The directories above a directory, up to one of them: those before it are on lower levels. -/
theorem ancestors_eq_append (h : ∀ level < levels, up level dir ≠ "") :
    ∃ nearer further, ancestors dir = nearer ++ up levels dir :: further ∧
      ∀ base ∈ nearer, ∃ level < levels, base = up level dir := by
  induction levels generalizing dir with
  | zero =>
    rw [ancestors]
    split
    · exact ⟨[], [], rfl, by simp⟩
    · exact ⟨[], _, rfl, by simp⟩
  | succ levels ih =>
    obtain ⟨nearer, further, hancestors, hnearer⟩ :=
      ih fun level hlevel => h (level + 1) (Nat.succ_lt_succ hlevel)
    have hdir : dir ≠ "" := h 0 (Nat.succ_pos levels)
    refine ⟨dir :: nearer, further, ?_, ?_⟩
    · rw [ancestors, if_neg hdir, hancestors]
      rfl
    · intro base hbase
      rcases List.mem_cons.1 hbase with rfl | hbase
      · exact ⟨0, Nat.succ_pos levels, rfl⟩
      · obtain ⟨level, hlevel, rfl⟩ := hnearer base hbase
        exact ⟨level + 1, Nat.succ_lt_succ hlevel, rfl⟩

theorem isClean_of_isName (h : ∀ name ∈ splitOn '/' path.toList, IsName name) : IsClean path := by
  constructor
  · intro segment hsegment
    obtain ⟨name, hname, rfl⟩ := List.mem_map.1 hsegment
    obtain ⟨⟨hempty, hdot, hup⟩, -, -⟩ := h name hname
    exact ⟨fun e => hempty (String.ofList_injective e), fun e => hdot (String.ofList_injective e),
      fun e => hup (String.ofList_injective e)⟩
  · rw [← joinWith_splitOn '/' path.toList]
    intro hc
    rcases mem_joinWith hc with hc | ⟨name, hname, hc⟩
    · exact absurd hc (by decide)
    · exact (h name hname).noBackslash hc

/-- The path of what lies in a directory; in the empty one it is the path itself. -/
def inside (dir path : String) : String := if dir = "" then path else dir ++ "/" ++ path

end Path

/-! ### Module names -/

/-- One word of a dotted module name. -/
structure IsModuleName (name : List Char) : Prop where
  ne_nil : name ≠ []
  noDot : '.' ∉ name
  noSlash : '/' ∉ name

/-- The path of a module below the directory in which it is looked up. -/
def modulePath (names : List (List Char)) : String := .ofList (joinWith ['/'] names)

/-- The file of a module in a directory. -/
def moduleFile (base : String) (names : List (List Char)) : String :=
  Path.inside base (modulePath names) ++ ".py"

/-- A module name as it is imported, with dots before it when the import is relative. -/
def dottedName (dots : Nat) (names : List (List Char)) : String :=
  .ofList (List.replicate dots '.' ++ joinWith ['.'] names)

variable {names : List (List Char)}

theorem joinWith_dot_eq (hne : names ≠ []) (hnames : ∀ name ∈ names, IsModuleName name) :
    ∃ c cs, joinWith ['.'] names = c :: cs ∧ c ≠ '.' := by
  obtain ⟨name, rest, rfl⟩ := List.exists_cons_of_ne_nil hne
  have hname := hnames name List.mem_cons_self
  obtain ⟨c, cs, rfl⟩ := List.exists_cons_of_ne_nil hname.ne_nil
  refine ⟨c, _, by rw [joinWith_cons, List.cons_append], ?_⟩
  rintro rfl
  exact hname.noDot List.mem_cons_self

/-- The dots of a module name are the slashes of its path. -/
theorem map_joinWith_dot (hnames : ∀ name ∈ names, IsModuleName name) :
    (joinWith ['.'] names).map (fun c => if c = '.' then '/' else c) = joinWith ['/'] names := by
  have hkeep : ∀ name ∈ names, name.map (fun c => if c = '.' then '/' else c) = name := by
    intro name hname
    refine (List.map_congr_left fun c hc => ?_).trans (List.map_id name)
    exact if_neg fun (hdot : c = '.') => (hnames name hname).noDot (hdot ▸ hc)
  cases names with
  | nil => rfl
  | cons name names =>
    obtain ⟨hname, hrest⟩ := List.forall_mem_cons.1 hkeep
    rw [joinWith_cons, joinWith_cons, List.map_append, hname, List.map_flatMap]
    refine congrArg (name ++ ·) (List.flatMap_congr fun next hnext => ?_)
    rw [List.map_append, hrest next hnext]
    rfl

/-- In a directory in clean form the path of a module is put behind a slash. -/
theorem join?_modulePath {base : String} (hbase : base = "" ∨ Path.IsClean base) (hne : names ≠ [])
    (hnames : ∀ name ∈ names, Path.IsName name) :
    Path.join? base (modulePath names) = some (Path.inside base (modulePath names)) := by
  -- the directory is a list of names itself
  obtain ⟨dirs, hdirs, rfl⟩ :
      ∃ dirs, (∀ name ∈ dirs, Path.IsName name) ∧ base = .ofList (joinWith ['/'] dirs) := by
    rcases hbase with rfl | hclean
    · exact ⟨[], by simp, rfl⟩
    · exact ⟨_, hclean.isName, by rw [joinWith_splitOn, String.ofList_toList]⟩
  have hall : ∀ name ∈ dirs ++ names, Path.IsName name := List.forall_mem_append.2 ⟨hdirs, hnames⟩
  rw [modulePath, Path.join?_joinWith (fun name h => (hdirs name h).ne_nil) hne,
    Path.clean?_joinWith (by simp [hne])
      (fun name h => ⟨(hall name h).ne_nil, (hall name h).noSlash⟩)
      ((Path.foldl_pushSegment_ordinary (fun name h => (hall name h).toIsOrdinary) []).trans
        (List.append_nil _)) hall]
  by_cases hnil : dirs = []
  · subst hnil
    rfl
  · have hempty : String.ofList (joinWith ['/'] dirs) ≠ "" := by
      obtain ⟨first, rest, rfl⟩ := List.exists_cons_of_ne_nil hnil
      have hfirst := (hdirs first List.mem_cons_self).ne_nil
      simp [← String.toList_eq_nil_iff, joinWith_cons, hfirst]
    rw [Path.inside, if_neg hempty, joinWith_append hnil hne]
    refine congrArg some (String.toList_inj.1 ?_)
    simp

/-- In the clean path of a module the directory is clean, and the words of the module are names. -/
theorem names_of_isClean {base : String} (hne : names ≠ [])
    (hnames : ∀ name ∈ names, IsModuleName name)
    (hclean : Path.IsClean (moduleFile base names)) :
    (base = "" ∨ Path.IsClean base) ∧ ∀ name ∈ names, Path.IsName name := by
  obtain ⟨dirs, last, rfl⟩ : ∃ dirs last, names = dirs ++ [last] :=
    ⟨_, _, (List.dropLast_concat_getLast hne).symm⟩
  have hdirs : ∀ name ∈ dirs, IsModuleName name :=
    fun name hname => hnames name (List.mem_append_left _ hname)
  have hlast : IsModuleName last := hnames last (by simp)
  have hsplit : splitOn '/' ((modulePath (dirs ++ [last])).toList ++ ['.', 'p', 'y']) =
      dirs ++ [last ++ ['.', 'p', 'y']] := by
    rw [modulePath, String.toList_ofList, Path.joinWith_concat, List.append_assoc,
      Path.splitOn_folderText fun name h => (hdirs name h).noSlash, splitOn_of_not_mem]
    simp [hlast.noSlash]
  -- the segments of the path are those of the directory and those of the module
  have hsegments : (base = "" ∨ ∀ name ∈ splitOn '/' base.toList, Path.IsName name) ∧
      ∀ name ∈ dirs ++ [last ++ ['.', 'p', 'y']], Path.IsName name := by
    have hall := hclean.isName
    unfold moduleFile Path.inside at hall
    split at hall
    · next hempty =>
      have htext : (modulePath (dirs ++ [last]) ++ ".py").toList =
          (modulePath (dirs ++ [last])).toList ++ ['.', 'p', 'y'] := by simp
      rw [htext, hsplit] at hall
      exact ⟨.inl hempty, hall⟩
    · have htext : (base ++ "/" ++ modulePath (dirs ++ [last]) ++ ".py").toList =
          base.toList ++ '/' :: ((modulePath (dirs ++ [last])).toList ++ ['.', 'p', 'y']) := by simp
      rw [htext, splitOn_append_cons, hsplit] at hall
      obtain ⟨hbase, hmodule⟩ := List.forall_mem_append.1 hall
      exact ⟨.inr hbase, hmodule⟩
  refine ⟨hsegments.1.imp_right Path.isClean_of_isName, ?_⟩
  obtain ⟨hinit, hfile⟩ := List.forall_mem_append.1 hsegments.2
  refine List.forall_mem_append.2 ⟨hinit, List.forall_mem_singleton.2 ?_⟩
  have hbackslash : '\\' ∉ last ++ ['.', 'p', 'y'] := (hfile _ List.mem_cons_self).noBackslash
  refine ⟨⟨hlast.ne_nil, ?_, ?_⟩, hlast.noSlash, fun hc => hbackslash (by simp [hc])⟩
  · rintro rfl
    exact hlast.noDot (by decide)
  · rintro rfl
    exact hlast.noDot (by decide)

namespace Resolver

variable {r : Resolver} {source base : String} {dots : Nat}

/-- The file of a module that is looked up in a directory. -/
def moduleIn? (r : Resolver) (names : List (List Char)) (base : String) : Option String :=
  (Path.join? base (modulePath names)).bind r.pythonModule?

/-- Without dots at the start, a module is looked up under its path below the base. -/
theorem pythonIn_eq (hne : names ≠ []) (hnames : ∀ name ∈ names, IsModuleName name) :
    r.pythonIn (joinWith ['.'] names) [] base = (r.moduleIn? names base).toList := by
  obtain ⟨c, cs, hcs, -⟩ := joinWith_dot_eq hne hnames
  have hempty : (joinWith ['.'] names).isEmpty = false := by rw [hcs]; rfl
  simp only [pythonIn, hempty, map_joinWith_dot hnames, moduleIn?, modulePath]
  cases Path.join? base (.ofList (joinWith ['/'] names)) with
  | none => rfl
  | some path => cases hmodule : r.pythonModule? path <;> simp [hmodule, List.eraseDups_cons]

/-- The first directory in which the module is found decides. -/
theorem find?_toList_eq {α β : Type} (f : α → Option β) (as : List α) :
    ((as.map fun a => (f a).toList).find? (!·.isEmpty)).getD [] = (as.findSome? f).toList := by
  induction as with
  | nil => rfl
  | cons a as ih =>
    rw [List.map_cons, List.find?_cons, List.findSome?_cons]
    cases f a with
    | none => exact ih
    | some b => rfl

/-- An import of a module without further names, by the directories in which it is looked up. -/
theorem python_dottedName (hne : names ≠ []) (hnames : ∀ name ∈ names, IsModuleName name) :
    r.python source (dottedName dots names) [] =
      ((if dots = 0 then Path.ancestors (Path.parent source)
        else (Path.climb? (dots - 1) (Path.parent source)).toList).findSome?
          (r.moduleIn? names)).toList := by
  obtain ⟨c, cs, hcs, hc⟩ := joinWith_dot_eq hne hnames
  have htake : (dottedName dots names).toList.takeWhile (· = '.') = List.replicate dots '.' := by
    rw [dottedName, String.toList_ofList, hcs]
    refine takeWhile_append_of_stops (fun x hx => ?_) (stops_cons.2 (by simpa using hc))
    simpa using List.eq_of_mem_replicate hx
  have hdrop : (dottedName dots names).toList.drop dots = joinWith ['.'] names := by
    rw [dottedName, String.toList_ofList, List.drop_left' List.length_replicate]
  have hin : r.pythonIn (joinWith ['.'] names) [] = fun base => (r.moduleIn? names base).toList :=
    funext fun base => pythonIn_eq hne hnames
  simp only [python, htake, List.length_replicate, hdrop, hin]
  exact find?_toList_eq _ _

theorem pythonModule?_isSome {path : String} :
    (r.pythonModule? path).isSome ↔ path ++ ".py" ∈ r.files ∨ path ++ "/__init__.py" ∈ r.files := by
  rw [pythonModule?, Option.orElse_eq_orElse, Option.orElse_eq_or, Option.isSome_or,
    Bool.or_eq_true, known?, known?, Option.isSome_ite, Option.isSome_ite]
  exact or_congr StringSet.contains_iff StringSet.contains_iff

/-- Whether the module, or the package of that name, is known in a directory. Files are known under
their clean paths, so the path of the module is joined to the directory in clean form; where the
directory is clean already it is put behind a slash (`hasModule_iff`). -/
def HasModule (r : Resolver) (base : String) (names : List (List Char)) : Prop :=
  ∃ path, Path.join? base (modulePath names) = some path ∧
    (path ++ ".py" ∈ r.files ∨ path ++ "/__init__.py" ∈ r.files)

theorem moduleIn?_eq_none (h : ¬ r.HasModule base names) : r.moduleIn? names base = none := by
  refine Option.bind_eq_none_iff.2 fun path hpath => ?_
  rw [← Option.not_isSome_iff_eq_none, pythonModule?_isSome]
  exact fun hknown => h ⟨path, hpath, hknown⟩

/-- In a directory in clean form the paths of its modules are not changed. -/
theorem hasModule_iff (hbase : base = "" ∨ Path.IsClean base) (hne : names ≠ [])
    (hnames : ∀ name ∈ names, Path.IsName name) :
    r.HasModule base names ↔ moduleFile base names ∈ r.files ∨
      Path.inside base (modulePath names) ++ "/__init__.py" ∈ r.files := by
  simp only [HasModule, join?_modulePath hbase hne hnames, Option.some.injEq, exists_eq_left',
    moduleFile]

/-- A known module is found in its directory. -/
theorem moduleIn?_moduleFile (hne : names ≠ []) (hnames : ∀ name ∈ names, IsModuleName name)
    (hclean : Path.IsClean (moduleFile base names)) (hknown : moduleFile base names ∈ r.files) :
    r.moduleIn? names base = some (moduleFile base names) := by
  obtain ⟨hbase, hsegments⟩ := names_of_isClean hne hnames hclean
  have hcontains : r.contains (moduleFile base names) = true := StringSet.contains_iff.2 hknown
  rw [moduleIn?, join?_modulePath hbase hne hsegments, Option.bind_some, pythonModule?,
    ← moduleFile, known?, if_pos hcontains]
  rfl

/-- A module of users, with others of a similar name around it. -/
def userResolver : Resolver :=
  ofFiles (.ofList ["app/models/user.py", "app/models/user/__init__.py", "models/user.py",
    "app/api/models.py", "app/api/v1/user.py", "app/api/v1/models/user.pyi"]) ""

end Resolver

end DeadCode
