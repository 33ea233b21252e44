import DeadCode.Proofs.ManifestEntry
import DeadCode.Resolver.Python

/-!
# DeadCode.Proofs.FirstKnown

Resolution as a search for the first known file. Which files an import or an entry asks for, and in
which order, does not depend on the files that a resolver knows: `Resolver.scriptFiles` and
`Resolver.entryFiles` list them, and the answer is the first one that is known. An import of Python
asks in one directory after another, and in each for several modules, `Resolver.pythonFiles`.

So a resolver that knows more files finds whatever one that knows less finds, and where it finds
another file it is one that the other does not know (`Resolver.more_files_keep_resolution`).
-/

namespace DeadCode

open Text

namespace Resolver

open DeadCode.Path

variable {r s : Resolver} {path source spec dir entry module file base : String}
  {names : List String} {name : List Char}

/-! ### The files that are asked for -/

theorem findSome?_probe? (r : Resolver) (paths : List String) :
    paths.findSome? r.probe? = (paths.flatMap probedFiles).find? r.contains := by
  rw [List.find?_flatMap]
  exact congrArg (paths.findSome? ·) (funext (probe?_eq_find? r))

theorem bind_probe? (r : Resolver) (path? : Option String) :
    path?.bind r.probe? = (path?.toList.flatMap probedFiles).find? r.contains := by
  rw [← findSome?_probe?]
  cases path? with
  | none => rfl
  | some path => simp

/-- The files that an import of a script asks for, the most wanted first. -/
def scriptFiles (r : Resolver) (source spec : String) : List String :=
  if (withoutQuery spec).isEmpty then []
  else if isRelative (withoutQuery spec) then
    (join? (parent source) (withoutQuery spec)).toList.flatMap probedFiles
  else
    match dropPrefix? ['/'] (withoutQuery spec).toList with
    | some rest =>
      probedFiles (withoutQuery spec) ++ (join? r.root (.ofList rest)).toList.flatMap probedFiles
    | none => (r.candidates (withoutQuery spec)).flatMap probedFiles

/-- An import leads to the first known one of the files that it asks for, and these do not depend on
what is known. -/
theorem script?_eq_find? (r : Resolver) (source spec : String) :
    r.script? source spec = (r.scriptFiles source spec).find? r.contains := by
  rw [script?_eq, scriptFiles]
  split
  · rfl
  · split
    · exact bind_probe? r _
    · cases dropPrefix? ['/'] (withoutQuery spec).toList with
      | some rest =>
        dsimp only
        rw [Option.orElse_eq_orElse, Option.orElse_eq_or, probe?_eq_find?, bind_probe?,
          List.find?_append]
      | none => exact findSome?_probe? r _

/-- The files that a path and the path without its extension ask for. -/
def stemFiles (path : String) : List String :=
  probedFiles path ++
    (cutLast '.' path.toList).toList.flatMap fun cut => probedFiles (.ofList cut.1)

theorem probeStem?_eq_find? (r : Resolver) (path : String) :
    r.probeStem? path = (stemFiles path).find? r.contains := by
  rw [probeStem?, Option.orElse_eq_orElse, Option.orElse_eq_or, probe?_eq_find?, stemFiles,
    List.find?_append]
  cases cutLast '.' path.toList with
  | none => rfl
  | some cut => simp [probe?_eq_find?]

/-- The files that an entry of a manifest asks for. -/
def entryFiles (dir entry : String) : List String :=
  if (entryText entry).isEmpty || (entryText entry).contains '*' then []
  else
    (join? dir (.ofList (entryText entry))).toList.flatMap probedFiles ++
      (sourceOf? (entryText entry)).toList.flatMap fun path =>
        (join? dir path).toList.flatMap stemFiles

/-- An entry leads to the first known one of the files that it asks for. -/
theorem entryFile?_eq_find? (r : Resolver) (dir entry : String) :
    r.entryFile? dir entry = (entryFiles dir entry).find? r.contains := by
  rw [entryFile?_eq, entryFiles]
  split
  · rfl
  · rw [bind_probe?, List.find?_append]
    congr 1
    cases sourceOf? (entryText entry) with
    | none => rfl
    | some path =>
      cases hjoin : join? dir path with
      | none => simp [hjoin]
      | some joined => simp [hjoin, probeStem?_eq_find?]

/-! ### Imports of Python -/

/-- The files of the module or package at a path. -/
def moduleFiles (path : String) : List String := [path ++ ".py", path ++ "/__init__.py"]

theorem known?_eq_find? (r : Resolver) (path : String) :
    r.known? path = [path].find? r.contains := by
  rw [known?, List.find?_cons]
  cases r.contains path <;> rfl

theorem pythonModule?_eq_find? (r : Resolver) (path : String) :
    r.pythonModule? path = (moduleFiles path).find? r.contains := by
  rw [pythonModule?, Option.orElse_eq_orElse, Option.orElse_eq_or, known?_eq_find?,
    known?_eq_find?, ← List.find?_append]
  rfl

/-- The path that an import means in a directory. -/
def pythonPath? (name : List Char) (base : String) : Option String :=
  if name.isEmpty then some base
  else join? base (.ofList (name.map fun c => if c = '.' then '/' else c))

/-- The files that an import asks for in a directory: for the module and for each imported name, a
few of which the first known one counts. -/
def pythonFiles (name : List Char) (names : List String) (base : String) : List (List String) :=
  match pythonPath? name base with
  | none => []
  | some path =>
    (if name.isEmpty then [(join? path "__init__.py").getD ""] else moduleFiles path) ::
      (names.filter (· ≠ "*")).filterMap fun n => (join? path n).map moduleFiles

/-- In one base directory, each group of files gives its first known one, and no file comes twice.
-/
theorem pythonIn_eq_eraseDups (r : Resolver) (name : List Char) (names : List String)
    (base : String) : r.pythonIn name names base =
      ((pythonFiles name names base).filterMap (·.find? r.contains)).eraseDups := by
  simp only [pythonIn]
  rw [← pythonPath?, pythonFiles]
  cases pythonPath? name base with
  | none => rfl
  | some path =>
    have hmodule : (if name.isEmpty then r.known? ((join? path "__init__.py").getD "")
        else r.pythonModule? path) =
          (if name.isEmpty then [(join? path "__init__.py").getD ""]
            else moduleFiles path).find? r.contains := by
      split
      · exact known?_eq_find? r _
      · exact pythonModule?_eq_find? r path
    have hnames : (fun n => (join? path n).bind r.pythonModule?) =
        fun n => ((join? path n).map moduleFiles).bind (·.find? r.contains) := by
      funext n
      rw [Option.bind_map]
      exact congrArg (Option.bind _) (funext (pythonModule?_eq_find? r))
    dsimp only
    rw [hmodule, hnames, ← List.filterMap_filterMap, List.filterMap_cons]
    cases List.find? r.contains _ <;> rfl

theorem mem_pythonIn : file ∈ r.pythonIn name names base ↔
    ∃ group ∈ pythonFiles name names base, group.find? r.contains = some file := by
  rw [pythonIn_eq_eraseDups, List.mem_eraseDups, List.mem_filterMap]

/-- The directories in which an import is looked up. -/
def pythonBases (source module : String) : List String :=
  if (module.toList.takeWhile (· = '.')).length = 0 then ancestors (parent source)
  else (climb? ((module.toList.takeWhile (· = '.')).length - 1) (parent source)).toList

/-- The name of an import without the dots before it. -/
def pythonName (module : String) : List Char :=
  module.toList.drop (module.toList.takeWhile (· = '.')).length

/-- Whether an import leads to a file when it is looked up in a directory. -/
def leadsIn (r : Resolver) (name : List Char) (names : List String) (base : String) : Bool :=
  !(r.pythonIn name names base).isEmpty

theorem leadsIn_iff :
    r.leadsIn name names base = true ↔ ∃ file, file ∈ r.pythonIn name names base := by
  rw [leadsIn, Bool.not_eq_true', List.isEmpty_eq_false_iff_exists_mem]

/-- An import gives the files of the first directory in which it leads to any. -/
theorem mem_python : file ∈ r.python source module names ↔
    ∃ base, (pythonBases source module).find? (r.leadsIn (pythonName module) names) = some base ∧
      file ∈ r.pythonIn (pythonName module) names base := by
  have hfind : r.python source module names =
      (((pythonBases source module).find? (r.leadsIn (pythonName module) names)).map
        (r.pythonIn (pythonName module) names)).getD [] := by
    have hmap : r.python source module names =
        (((pythonBases source module).map (r.pythonIn (pythonName module) names)).find?
          (!·.isEmpty)).getD [] := rfl
    rw [hmap, List.find?_map]
    rfl
  rw [hfind]
  cases (pythonBases source module).find? (r.leadsIn (pythonName module) names) with
  | none => simp
  | some base => simp

/-- A module leads somewhere as soon as one of its bases does. -/
theorem python_ne_nil_iff : r.python source module names ≠ [] ↔
    ((pythonBases source module).find? (r.leadsIn (pythonName module) names)).isSome := by
  constructor
  · intro hne
    obtain ⟨file, hfile⟩ := List.exists_mem_of_ne_nil _ hne
    obtain ⟨base, hbase, -⟩ := mem_python.1 hfile
    exact Option.isSome_iff_exists.2 ⟨base, hbase⟩
  · intro hsome
    obtain ⟨base, hbase⟩ := Option.isSome_iff_exists.1 hsome
    obtain ⟨file, hfile⟩ := leadsIn_iff.1 (List.find?_some hbase)
    exact List.ne_nil_of_mem (mem_python.2 ⟨base, hbase, hfile⟩)

/-! ### More files -/

/-- `s` is `r` with more files, or with the same. -/
structure GrowsTo (r s : Resolver) : Prop where
  files : ∀ x ∈ r.files, x ∈ s.files
  root : s.root = r.root
  aliases : s.aliases = r.aliases
  bases : s.bases = r.bases

/-- The first of a list that passes a weaker test: there is one if one passes the stronger test, and
it is the first to pass that one, too, if it does at all. -/
theorem find?_of_imp {α : Type} {p q : α → Bool} (himp : ∀ x, p x = true → q x = true)
    (l : List α) :
    ((l.find? p).isSome → (l.find? q).isSome) ∧
      ∀ x, l.find? q = some x → p x = true → l.find? p = some x := by
  constructor
  · intro hsome
    obtain ⟨x, hx, hp⟩ := List.find?_isSome.1 hsome
    exact List.find?_isSome.2 ⟨x, hx, himp x hp⟩
  · intro x hx hp
    obtain ⟨-, before, after, hl, hbefore⟩ := List.find?_eq_some_iff_append.1 hx
    refine List.find?_eq_some_iff_append.2 ⟨hp, before, after, hl, fun y hy => ?_⟩
    have hq := hbefore y hy
    rw [Bool.not_eq_true', ← Bool.not_eq_true] at hq ⊢
    exact mt (himp y) hq

section Grows

variable (h : r.GrowsTo s)
include h

theorem GrowsTo.contains {x : String} (hx : r.contains x = true) : s.contains x = true :=
  StringSet.contains_iff.2 (h.files x (StringSet.contains_iff.1 hx))

/-- With more files known, an import asks for the same files. -/
theorem GrowsTo.scriptFiles (source spec : String) :
    s.scriptFiles source spec = r.scriptFiles source spec := by
  have hcandidates : s.candidates = r.candidates := by
    funext spec
    rw [candidates, candidates, h.aliases, h.bases]
  rw [Resolver.scriptFiles, Resolver.scriptFiles, h.root, hcandidates]

/-- With more files known, a base directory that led somewhere still does. -/
theorem GrowsTo.leadsIn (hleads : r.leadsIn name names base = true) :
    s.leadsIn name names base = true := by
  obtain ⟨file, hfile⟩ := leadsIn_iff.1 hleads
  obtain ⟨group, hgroup, hfind⟩ := mem_pythonIn.1 hfile
  have hsome := (find?_of_imp (fun _ => h.contains) group).1
    (Option.isSome_iff_exists.2 ⟨file, hfind⟩)
  obtain ⟨other, hother⟩ := Option.isSome_iff_exists.1 hsome
  exact leadsIn_iff.2 ⟨other, mem_pythonIn.2 ⟨group, hgroup, hother⟩⟩

/-- A file that was known before and is found now was found before. -/
theorem GrowsTo.mem_pythonIn (hfile : file ∈ s.pythonIn name names base) (hmem : file ∈ r.files) :
    file ∈ r.pythonIn name names base := by
  obtain ⟨group, hgroup, hfind⟩ := Resolver.mem_pythonIn.1 hfile
  exact Resolver.mem_pythonIn.2 ⟨group, hgroup, (find?_of_imp (fun _ => h.contains) group).2 file
    hfind (StringSet.contains_iff.2 hmem)⟩

/-- A file that the smaller resolver knows is found by it, too: in the directories that come first
it finds nothing, as the larger one does not. -/
theorem GrowsTo.mem_python (hfile : file ∈ s.python source module names) (hmem : file ∈ r.files) :
    file ∈ r.python source module names := by
  obtain ⟨base, hbase, hfile⟩ := Resolver.mem_python.1 hfile
  have hfound := h.mem_pythonIn hfile hmem
  exact Resolver.mem_python.2 ⟨base, (find?_of_imp (fun _ => h.leadsIn) _).2 base hbase
    (leadsIn_iff.2 ⟨file, hfound⟩), hfound⟩

end Grows

/-- **More files never lose a resolution.** Let `s` be a resolver with the root, the aliases and the
base directories of `r` that knows all files of `r` and maybe more. Whatever import or entry leads
to a file in `r` does so in `s`. Where `s` gives another file it is a new one: a file that `r` knows
is given by `s` only if `r` gives it. -/
theorem more_files_keep_resolution {r s : Resolver} (h : r.GrowsTo s) :
    (∀ source spec, ((r.script? source spec).isSome → (s.script? source spec).isSome) ∧
      ∀ file, s.script? source spec = some file → file ∈ r.files →
        r.script? source spec = some file) ∧
      (∀ dir entry, ((r.entryFile? dir entry).isSome → (s.entryFile? dir entry).isSome) ∧
        ∀ file, s.entryFile? dir entry = some file → file ∈ r.files →
          r.entryFile? dir entry = some file) ∧
      ∀ source module names,
        (r.python source module names ≠ [] → s.python source module names ≠ []) ∧
          ∀ file ∈ s.python source module names, file ∈ r.files →
            file ∈ r.python source module names := by
  -- imports of scripts and entries of manifests take the first known of a list that does not depend
  -- on the files
  have hfiles : ∀ files : List String,
      ((files.find? r.contains).isSome → (files.find? s.contains).isSome) ∧
        ∀ file, files.find? s.contains = some file → file ∈ r.files →
          files.find? r.contains = some file := by
    intro files
    obtain ⟨hsome, hsame⟩ := find?_of_imp (fun _ => h.contains) files
    exact ⟨hsome, fun file hfile hmem => hsame file hfile (StringSet.contains_iff.2 hmem)⟩
  refine ⟨fun source spec => ?_, fun dir entry => ?_, fun source module names => ⟨?_, ?_⟩⟩
  · rw [script?_eq_find?, script?_eq_find?, h.scriptFiles]
    exact hfiles (r.scriptFiles source spec)
  · rw [entryFile?_eq_find?, entryFile?_eq_find?]
    exact hfiles (entryFiles dir entry)
  · rw [python_ne_nil_iff, python_ne_nil_iff]
    exact (find?_of_imp (fun _ => h.leadsIn) _).1
  · intro file hfile hmem
    exact h.mem_python hfile hmem

/-- A resolver of a few files, to which others are added. -/
def growingResolver (added : List String) : Resolver :=
  ofFiles (.ofList (["src/main.ts", "src/ui/index.ts", "app/models/__init__.py"] ++ added)) ""

theorem growsTo_growingResolver (added : List String) :
    (growingResolver []).GrowsTo (growingResolver added) := by
  refine ⟨fun x hx => StringSet.mem_ofList.2 ?_, rfl, rfl, rfl⟩
  have hfirst := StringSet.mem_ofList.1 hx
  rw [List.append_nil] at hfirst
  exact List.mem_append_left added hfirst

/-- Files that are found earlier than those that were found before. -/
theorem more_files_keep_growing :
    (growingResolver []).script? "src/main.ts" "./ui" = some "src/ui/index.ts" ∧
      ((growingResolver ["src/ui.ts", "app/models.py"]).script? "src/main.ts" "./ui").isSome ∧
      (growingResolver []).python "app/main.py" "models" [] = ["app/models/__init__.py"] ∧
      (growingResolver ["src/ui.ts", "app/models.py"]).python "app/main.py" "models" [] ≠ [] := by
  have hgrows : (growingResolver []).GrowsTo (growingResolver ["src/ui.ts", "app/models.py"]) :=
    growsTo_growingResolver _
  have hscript : (growingResolver []).script? "src/main.ts" "./ui" = some "src/ui/index.ts" := by
    decide
  have hpython : (growingResolver []).python "app/main.py" "models" [] =
      ["app/models/__init__.py"] := by decide +kernel
  obtain ⟨hkept, -, hkept'⟩ := more_files_keep_resolution hgrows
  exact ⟨hscript, (hkept _ _).1 (hscript ▸ rfl), hpython,
    (hkept' _ _ _).1 (hpython ▸ List.cons_ne_nil _ _)⟩

end Resolver

end DeadCode
