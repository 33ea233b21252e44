import DeadCode.Proofs.SiblingImport

/-!
# DeadCode.Proofs.DirectoryImport

Imports of a directory. The files that a path may mean are of two kinds: its namesakes, which stand
beside the directory of that name, and the index files, which lie in it. Probing asks for the
namesakes first, and slashes at the end of a path play no part. So an import of a directory, even
when it is written with a slash, leads into the directory if and only if no namesake is known
(`Resolver.directory_import_inside_iff`).
-/

namespace DeadCode

open Text

namespace Resolver

variable {r : Resolver} {path file dir : String}

/-! ### Namesakes and index files -/

/-- The files beside a directory that are named like it: the path itself, the sources from which it
may be compiled, and the path with an extension. -/
def namesakes (path : String) : List String :=
  path :: compiledFrom path ++ probedExtensions.map (path ++ "." ++ ·)

/-- The index files of a directory. -/
def indexFiles (path : String) : List String := probedExtensions.map (path ++ "/index." ++ ·)

theorem meanings_eq (path : String) : meanings path = namesakes path ++ indexFiles path := rfl

/-- A source differs in its extension from what is compiled from it. -/
theorem exists_of_mem_compiledFrom (h : file ∈ compiledFrom path) :
    ∃ stem ext source, path.toList = stem ++ '.' :: ext ∧ file.toList = stem ++ '.' :: source ∧
      '/' ∉ ext ∧ '/' ∉ source := by
  unfold compiledFrom at h
  split at h
  · next stem ext hcut =>
    split at h
    · cases h
    · obtain ⟨source, hsource, rfl⟩ := List.mem_map.1 h
      obtain ⟨hext, hslash, -⟩ := of_mem_sourceExtensions hsource
      exact ⟨stem, ext, source.toList, eq_of_cutLast hcut, by simp, hext, hslash⟩
  · cases h

/-- An index file lies in its directory. -/
theorem isWithin_of_mem_indexFiles (h : file ∈ indexFiles path) :
    Path.isWithin file path = true := by
  obtain ⟨ext, -, rfl⟩ := List.mem_map.1 h
  exact Path.isWithin_iff.2 (.inr ⟨("index." ++ ext).toList, by simp⟩)

/-- A namesake stands beside the directory and not in it. -/
theorem not_isWithin_of_mem_namesakes (hpath : path ≠ "") (h : file ∈ namesakes path) :
    Path.isWithin file path = false := by
  refine Bool.eq_false_iff.2 fun hwithin => ?_
  have hbelow := (Path.isWithin_iff.1 hwithin).resolve_left hpath
  simp only [namesakes, List.cons_append, List.mem_cons, List.mem_append, List.mem_map] at h
  rcases h with rfl | hcompiled | ⟨ext, -, rfl⟩
  · have hlength := hbelow.length_le
    rw [List.length_append, List.length_singleton] at hlength
    omega
  · obtain ⟨stem, ext, source, htext, hfile, -, hslash⟩ := exists_of_mem_compiledFrom hcompiled
    rw [htext, hfile, List.append_assoc, List.prefix_append_right_inj, List.cons_append,
      List.prefix_cons_inj] at hbelow
    exact hslash (hbelow.mem (by simp))
  · -- behind the path stands a dot
    have htext : (path ++ "." ++ ext).toList = path.toList ++ '.' :: ext.toList := by simp
    rw [htext, List.prefix_append_right_inj, List.cons_prefix_cons] at hbelow
    exact absurd hbelow.1 (by decide)

/-- Whatever a path in a directory means lies in that directory too. -/
theorem isWithin_of_mem_meanings (hpath : Path.isWithin path dir = true)
    (h : file ∈ meanings path) : Path.isWithin file dir = true := by
  rw [Path.isWithin_iff] at hpath ⊢
  refine hpath.imp_right fun hbelow => ?_
  simp only [meanings, List.cons_append, List.mem_cons, List.mem_append, List.mem_map] at h
  rcases h with rfl | (hcompiled | ⟨ext, -, rfl⟩) | ⟨ext, -, rfl⟩
  · exact hbelow
  · obtain ⟨stem, ext, source, htext, hfile, hext, -⟩ := exists_of_mem_compiledFrom hcompiled
    -- the slash behind the directory stands before the extension
    obtain ⟨rest, hrest⟩ := hbelow
    rw [htext, List.append_assoc] at hrest
    rcases List.append_eq_append_iff.1 hrest with ⟨between, hstem, hbetween⟩ | ⟨between, hdir, hdot⟩
    · cases between with
      | nil => simp at hbetween
      | cons c between =>
        obtain ⟨rfl, -⟩ := List.cons.inj hbetween
        exact ⟨between ++ '.' :: source, by simp [hfile, hstem]⟩
    · cases between with
      | nil => simp at hdot
      | cons c between =>
        obtain ⟨-, hext'⟩ := List.cons.inj hdot
        exact absurd (hext' ▸ by simp : '/' ∈ ext) hext
  · exact hbelow.trans ⟨("." ++ ext).toList, by simp⟩
  · exact hbelow.trans ⟨("/index." ++ ext).toList, by simp⟩

/-! ### Probing -/

/-- Probing asks for the namesakes first, and then for the index files. -/
theorem probe?_eq_or (h : Path.dropSlashes path ≠ "") :
    r.probe? path = ((namesakes (Path.dropSlashes path)).find? r.contains).or
      ((indexFiles (Path.dropSlashes path)).find? r.contains) := by
  rw [probe?_eq_find?, probedFiles_of_ne h, meanings_eq, List.find?_append]

theorem dropSlashes_ne_empty_of_probe? (h : r.probe? path = some file) :
    Path.dropSlashes path ≠ "" := by
  intro hempty
  rw [probe?, hempty] at h
  cases h

/-- The file that a path means lies in a directory if no slash is dropped from before it. -/
theorem isWithin_of_probe? (hpath : Path.isWithin (Path.dropSlashes path) dir = true)
    (h : r.probe? path = some file) : Path.isWithin file dir = true := by
  simp only [probe?] at h
  split at h
  · cases h
  · exact isWithin_of_mem_meanings hpath (List.mem_of_find?_eq_some h)

/-- A probe finds the first known namesake, beside the directory, or an index file in it when there
is none. -/
theorem probe?_cases (h : r.probe? path = some file) :
    let folder := Path.dropSlashes path
    (namesakes folder).find? r.contains = some file ∧ file ∈ r.files ∧
        Path.isWithin file folder = false ∨
      (∀ x ∈ namesakes folder, x ∉ r.files) ∧ file ∈ indexFiles folder ∧
        Path.isWithin file folder = true := by
  intro folder
  have hne := dropSlashes_ne_empty_of_probe? h
  rw [probe?_eq_or hne] at h
  rcases Option.or_eq_some_iff.1 h with hnamesake | ⟨hnone, hindex⟩
  · refine .inl ⟨hnamesake, StringSet.contains_iff.1 (List.find?_some hnamesake), ?_⟩
    exact not_isWithin_of_mem_namesakes hne (List.mem_of_find?_eq_some hnamesake)
  · have hmem := List.mem_of_find?_eq_some hindex
    refine .inr ⟨fun x hx hknown => ?_, hmem, isWithin_of_mem_indexFiles hmem⟩
    exact List.find?_eq_none.1 hnone x hx (StringSet.contains_iff.2 hknown)

/-! ### Imports of a directory -/

/-- An import without what follows its question mark. -/
def withoutQuery (spec : String) : String := .ofList (spec.toList.takeWhile (· ≠ '?'))

/-- The look-up of an import with its query named once. -/
theorem script?_eq (r : Resolver) (source spec : String) :
    r.script? source spec =
      if (withoutQuery spec).isEmpty then none
      else if isRelative (withoutQuery spec) then
        (Path.join? (Path.parent source) (withoutQuery spec)).bind r.probe?
      else
        match dropPrefix? ['/'] (withoutQuery spec).toList with
        | some rest =>
          r.probe? (withoutQuery spec) <|> (Path.join? r.root (.ofList rest)).bind r.probe?
        | none => (r.candidates (withoutQuery spec)).findSome? r.probe? :=
  rfl

theorem script?_withoutQuery (source spec : String) :
    r.script? source (withoutQuery spec) = r.script? source spec := by
  have htake : withoutQuery (withoutQuery spec) = withoutQuery spec := by
    simp [withoutQuery, List.takeWhile_takeWhile]
  rw [script?_eq, htake, ← script?_eq]

theorem query_not_mem_withoutQuery (spec : String) : '?' ∉ (withoutQuery spec).toList := by
  rw [withoutQuery, String.toList_ofList]
  intro h
  simpa using List.mem_takeWhile_imp h

/-- **An import of a directory leads into it unless the directory has a namesake.** Let `spec` be a
relative import, such as `.`, `..` or `./lib/`, and `folder` what it says from the directory of the
file. The file that it leads to lies in `folder` if and only if no file named like `folder` is
known. It is then an index file of `folder`, and otherwise the first of the known namesakes. -/
theorem directory_import_inside_iff (r : Resolver) {source spec dir file : String}
    (hrelative : isRelative (withoutQuery spec) = true)
    (hdir : Path.join? (Path.parent source) (withoutQuery spec) = some dir)
    (hfile : r.script? source spec = some file) :
    let folder := Path.dropSlashes dir
    (Path.isWithin file folder = true ↔ ∀ x ∈ namesakes folder, x ∉ r.files) ∧
      (Path.isWithin file folder = true → file ∈ indexFiles folder) ∧
      (Path.isWithin file folder = false → (namesakes folder).find? r.contains = some file) := by
  intro folder
  rw [← script?_withoutQuery, script?_of_isRelative hrelative (query_not_mem_withoutQuery spec),
    hdir, Option.bind_some] at hfile
  rcases probe?_cases hfile with ⟨hfirst, hknown, hbeside⟩ | ⟨hunknown, hindex, hinside⟩
  · refine ⟨iff_of_false (Bool.eq_false_iff.1 hbeside) fun hunknown => ?_, fun hinside => ?_,
      fun _ => hfirst⟩
    · exact hunknown file (List.mem_of_find?_eq_some hfirst) hknown
    · exact absurd hinside (Bool.eq_false_iff.1 hbeside)
  · refine ⟨iff_of_true hinside hunknown, fun _ => hindex, fun hbeside => ?_⟩
    exact absurd hinside (Bool.eq_false_iff.1 hbeside)

/-- A directory with an index file, beside which other files stand. -/
def libraryResolver (beside : List String) : Resolver :=
  ofFiles (.ofList (["src/main.ts", "src/lib/index.js", "src/lib/index.ts"] ++ beside)) ""

theorem directory_import_inside_library :
    (libraryResolver ["src/lib.css"]).script? "src/main.ts" "./lib/?raw" =
        some "src/lib/index.ts" ∧
      Path.isWithin "src/lib/index.ts" "src/lib" = true ∧
      ∀ x ∈ namesakes "src/lib", x ∉ (libraryResolver ["src/lib.css"]).files := by
  have hfile : (libraryResolver ["src/lib.css"]).script? "src/main.ts" "./lib/?raw" =
      some "src/lib/index.ts" := by decide
  have hdir : Path.join? (Path.parent "src/main.ts") (withoutQuery "./lib/?raw") =
      some "src/lib" := by decide
  have hinside : Path.isWithin "src/lib/index.ts" (Path.dropSlashes "src/lib") = true := by decide
  have hfolder : Path.dropSlashes "src/lib" = "src/lib" := by decide
  have h := directory_import_inside_iff (libraryResolver ["src/lib.css"]) (by decide) hdir hfile
  rw [hfolder] at h hinside
  exact ⟨hfile, hinside, h.1.1 hinside⟩

/-- With a file beside the directory that is named like it, the import with a slash at its end leads
to that file, although the directory has an index file. -/
theorem directory_import_beside_library :
    Path.join? (Path.parent "src/main.ts") "./lib/" = some "src/lib" ∧
      (libraryResolver ["src/lib.ts"]).script? "src/main.ts" "./lib/" = some "src/lib.ts" ∧
      Path.isWithin "src/lib.ts" "src/lib" = false := by
  decide

end Resolver

end DeadCode
