import DeadCode.Proofs.Liveness
import DeadCode.Proofs.PythonLookup
import DeadCode.Proofs.Quoted

/-!
# DeadCode.Proofs.PythonStub

Stubs of Python modules. Python owns the files `name.pyi` and asks whether they are used, but it
looks an import up as `name.py` and as the package `name/__init__.py` only. So the files that
imports of Python lead to have another end than a stub (`Resolver.suffix_of_mem_python`), and a stub
can be kept in use by an entry point, by a framework or by another language alone
(`Resolver.stub_import_unresolved`).
-/

namespace DeadCode

open Text

/-! ### The ends of paths -/

namespace Path

/-- What stands behind the last dot is the extension. -/
theorem extension?_append {path ext : String} (hne : ext ≠ "") (hdot : '.' ∉ ext.toList)
    (hslash : '/' ∉ ext.toList) : extension? (path ++ "." ++ ext) = some ext := by
  obtain ⟨c, cs, hext⟩ := List.exists_cons_of_ne_nil (mt String.toList_eq_nil_iff.1 hne)
  have htext : (path ++ "." ++ ext).toList = path.toList ++ '.' :: ext.toList := by simp
  -- the file name ends like the path
  obtain ⟨name, hname⟩ : ∃ name, (fileName (path ++ "." ++ ext)).toList =
      name ++ '.' :: ext.toList := by
    rw [fileName, htext]
    by_cases hmem : '/' ∈ path.toList
    · obtain ⟨dir, name, hpath, hname⟩ := exists_last_of_mem hmem
      have hbehind : '/' ∉ name ++ '.' :: ext.toList := by simp [hname, hslash]
      rw [hpath, List.append_assoc, List.cons_append, cutLast_append_cons hbehind]
      exact ⟨name, String.toList_ofList⟩
    · have hwhole : '/' ∉ path.toList ++ '.' :: ext.toList := by simp [hmem, hslash]
      rw [cutLast_of_not_mem hwhole]
      exact ⟨path.toList, htext⟩
  rw [extension?, hname, cutLast_append_cons hdot, hext]
  simp [← hext]

/-- The clean form of a path ends with its last segment, if that is a name. -/
theorem suffix_of_clean? {path cleaned : String} {segments : List (List Char)} {name : List Char}
    (hname : IsName name) (hpath : splitOn '/' path.toList = segments ++ [name])
    (h : clean? path = some cleaned) : name <:+ cleaned.toList := by
  have hkept : cleanSegments (startsWith ['/'] path.toList) (splitOn '/' path.toList) =
      (segments.foldl (pushSegment (startsWith ['/'] path.toList)) []).reverse ++ [name] := by
    rw [hpath, cleanSegments, List.foldl_append, List.foldl_cons, List.foldl_nil,
      pushSegment_of_ordinary hname.toIsOrdinary, List.reverse_cons]
  have hslashes : (withSlashes (.ofList name)).toList = name := by
    rw [withSlashes_eq_self (by simpa using hname.noBackslash), String.toList_ofList]
  rw [withSlashes, String.toList_ofList, String.toList_ofList] at hslashes
  simp only [clean?, hkept, joinWith_concat] at h
  split at h
  · cases h
  · rw [← Option.some.inj h, withSlashes, String.toList_ofList, String.toList_ofList, ← hslashes]
    refine List.IsSuffix.map _ ?_
    rw [hslashes]
    split
    · exact List.suffix_append ('/' :: folderText _) name
    · exact List.suffix_append _ name

theorem suffix_of_join? {dir path name : String} (hname : IsName name.toList)
    (h : join? dir name = some path) : name.toList <:+ path.toList := by
  rw [join?] at h
  split at h
  · have hsplit : splitOn '/' name.toList = [] ++ [name.toList] := splitOn_of_not_mem hname.noSlash
    exact suffix_of_clean? hname hsplit h
  · have hsplit : splitOn '/' (dir ++ "/" ++ name).toList =
        splitOn '/' dir.toList ++ [name.toList] := by
      rw [← splitOn_of_not_mem hname.noSlash, ← splitOn_append_cons]
      simp
    exact suffix_of_clean? hname hsplit h

end Path

/-! ### Files of modules -/

namespace Resolver

variable {r : Resolver} {file : String}

/-- A module is looked up in files with the extension `.py` only. -/
theorem suffix_of_pythonModule? {path : String} (h : r.pythonModule? path = some file) :
    ".py".toList <:+ file.toList := by
  rw [pythonModule?, Option.orElse_eq_orElse, Option.orElse_eq_or] at h
  rcases Option.or_eq_some_iff.1 h with h | ⟨-, h⟩
  · obtain ⟨-, ⟨⟩⟩ := Option.ite_none_right_eq_some.1 h
    exact String.toList_append ▸ List.suffix_append _ _
  · obtain ⟨-, ⟨⟩⟩ := Option.ite_none_right_eq_some.1 h
    rw [String.toList_append]
    exact List.IsSuffix.trans (by decide) (List.suffix_append _ _)

/-- What a look-up finds is a file with the extension `.py`, unless its path is empty. -/
theorem suffix_of_mem_pythonIn {name : List Char} {names : List String} {base : String}
    (h : file ∈ r.pythonIn name names base) : file = "" ∨ ".py".toList <:+ file.toList := by
  simp only [pythonIn] at h
  split at h
  · cases h
  · next path hpath =>
    rw [List.mem_eraseDups, List.mem_append, Option.mem_toList] at h
    rcases h with hmodule | hsubmodule
    · split at hmodule
      · obtain ⟨-, ⟨⟩⟩ := Option.ite_none_right_eq_some.1 hmodule
        cases hjoin : Path.join? path "__init__.py" with
        | none => exact .inl rfl
        | some package =>
          have hname : Path.IsName "__init__.py".toList := by
            refine ⟨⟨?_, ?_, ?_⟩, ?_, ?_⟩ <;> decide
          exact .inr (List.IsSuffix.trans (by decide) (Path.suffix_of_join? hname hjoin))
      · exact .inr (suffix_of_pythonModule? hmodule)
    · obtain ⟨n, -, hn⟩ := List.mem_filterMap.1 hsubmodule
      obtain ⟨path, -, hmodule⟩ := Option.bind_eq_some_iff.1 hn
      exact .inr (suffix_of_pythonModule? hmodule)

/-- Imports of Python lead to modules, never to stubs. -/
theorem suffix_of_mem_python {source module : String} {names : List String}
    (h : file ∈ r.python source module names) : file = "" ∨ ".py".toList <:+ file.toList := by
  simp only [python] at h
  cases hfound : List.find? (fun found => !List.isEmpty found) (List.map _ _) with
  | none =>
    rw [hfound] at h
    cases h
  | some found =>
    rw [hfound] at h
    obtain ⟨base, -, rfl⟩ := List.mem_map.1 (List.mem_of_find?_eq_some hfound)
    exact suffix_of_mem_pythonIn h

/-! ### Stubs -/

/-- The stub of a module, in the top directory. -/
def stubFile (names : List (List Char)) : String := modulePath names ++ ".pyi"

theorem isPython_stubFile (names : List (List Char)) : Path.isPython (stubFile names) = true := by
  have hstub : stubFile names = modulePath names ++ "." ++ "pyi" := by
    rw [String.append_assoc]
    rfl
  rw [Path.isPython, Path.hasExtension, hstub,
    Path.extension?_append (by decide) (by decide) (by decide)]
  rfl

/-- No import leads to a stub. -/
theorem stubFile_not_mem_python (r : Resolver) (names : List (List Char)) (source module : String)
    (imported : List String) : stubFile names ∉ r.python source module imported := by
  intro hmem
  rcases suffix_of_mem_python hmem with hempty | ⟨stem, hstem⟩
  · have hlength := congrArg (fun path => path.toList.length) hempty
    simp [stubFile] at hlength
  · have hlast := congrArg List.getLast? hstem
    simp [stubFile] at hlast

/-- **Stubs are not found.** Python owns the stub of a module. But an import of the module in a file
of the top directory leads nowhere when neither the module nor a package of that name is known, and
no import whatever of a Python file leads to the stub: a file that imports it is of another
language. -/
theorem stub_import_unresolved {names : List (List Char)} (hne : names ≠ [])
    (hnames : ∀ name ∈ names, IsModuleName name) (hclean : Path.IsClean (stubFile names)) :
    Path.isPython (stubFile names) = true ∧
      (∀ (r : Resolver) (source : String), Path.parent source = "" →
        modulePath names ++ ".py" ∉ r.files → modulePath names ++ "/__init__.py" ∉ r.files →
          r.python source (dottedName 0 names) [] = []) ∧
      (∀ (r : Resolver) (source module : String) (imported : List String),
        stubFile names ∉ r.python source module imported) ∧
      ∀ (p : Project) (source : String),
        p.Imports source (stubFile names) → Path.isPython source = false := by
  have hsegments : ∀ name ∈ names, Path.IsName name := by
    intro name hname
    obtain ⟨hnil, hdot, hslash⟩ := hnames name hname
    refine ⟨⟨hnil, ?_, ?_⟩, hslash, fun hbackslash => hclean.noBackslash ?_⟩
    · rintro rfl
      exact hdot (by decide)
    · rintro rfl
      exact hdot (by decide)
    · simp [stubFile, modulePath, mem_joinWith_of_mem hname hbackslash]
  refine ⟨isPython_stubFile names, fun r source hparent hmodule hpackage => ?_,
    fun r => stubFile_not_mem_python r names, fun p source himports => ?_⟩
  · have hnone : r.moduleIn? names "" = none := by
      refine moduleIn?_eq_none ?_
      rw [hasModule_iff (.inl rfl) hne hsegments, not_or]
      exact ⟨hmodule, hpackage⟩
    rw [python_dottedName hne hnames, if_pos rfl, hparent, Path.ancestors, if_pos rfl,
      List.findSome?_singleton, hnone]
    rfl
  · obtain ⟨l, -, howns, m, -, i, -, hresolve, -⟩ := himports
    cases l with
    | javaScript => exact Language.hasExtension_eq_false (by decide) howns
    | python => exact absurd hresolve (stubFile_not_mem_python p.resolver names source _ _)

/-- A program and the stub of a module that it imports. -/
def stubResolver : Resolver :=
  ofFiles (.ofList ["app.py", "models/user.pyi", "models/__init__.pyi"]) ""

theorem stub_import_unresolved_user :
    "models/user.pyi" ∈ stubResolver.files ∧ Path.isPython "models/user.pyi" = true ∧
      stubResolver.python "app.py" "models.user" [] = [] := by
  have hnames : ∀ name ∈ ["models".toList, "user".toList], IsModuleName name := by
    refine List.forall_mem_cons.2 ⟨?_, List.forall_mem_singleton.2 ?_⟩
    all_goals refine ⟨?_, ?_, ?_⟩ <;> decide
  obtain ⟨hpython, hnone, -, -⟩ := stub_import_unresolved (by simp) hnames (by decide)
  exact ⟨by decide, hpython, hnone stubResolver "app.py" (by decide) (by decide) (by decide)⟩

/-- The stub is the only file of the module, and the import does not lead to it. -/
theorem stub_import_lost :
    "models/user.pyi" ∈ stubResolver.files ∧ "models/user.py" ∉ stubResolver.files ∧
      "models/user/__init__.py" ∉ stubResolver.files ∧
      "models/user.pyi" ∉ stubResolver.python "app.py" "models.user" [] := by
  have hstub : stubFile ["models".toList, "user".toList] = "models/user.pyi" := by decide
  refine ⟨by decide, by decide, by decide, ?_⟩
  rw [← hstub]
  exact stubFile_not_mem_python stubResolver _ _ _ _

end Resolver

end DeadCode
