import DeadCode.Proofs.InputOrder
import DeadCode.Proofs.RelativeImport
import DeadCode.Proofs.Resolver

/-!
# DeadCode.Proofs.SiblingImport

Imports of a file in the same folder. The files of a project keep the spelling that they are given
with, whereas an import is looked up under its clean path. The two meet exactly when the folder is
written plainly (`Path.IsPlainFolder`): cleaning then leaves the folder as it is, and any other
spelling it replaces by one under which the file is not known. The root directory is a case of its
own, as the folder above `/a.ts` is the empty one.
-/

namespace DeadCode

open Text

namespace Path

/-! ### File names -/

theorem cutLast_append_of_not_mem {sep : Char} {ys : List Char} (h : sep ∉ ys) (xs : List Char) :
    cutLast sep (xs ++ ys) = (cutLast sep xs).map fun cut => (cut.1, cut.2 ++ ys) := by
  induction xs with
  | nil => exact cutLast_of_not_mem h
  | cons x xs ih =>
    rw [List.cons_append, cutLast, ih, cutLast]
    cases cutLast sep xs with
    | some cut => rfl
    | none => by_cases hx : x = sep <;> simp [hx]

/-- What is put behind a path belongs to the file name. -/
theorem fileName_append {rest : String} (h : '/' ∉ rest.toList) (path : String) :
    fileName (path ++ rest) = fileName path ++ rest := by
  rw [fileName, String.toList_append, cutLast_append_of_not_mem h, fileName]
  cases cutLast '/' path.toList with
  | some cut => apply String.toList_inj.1; simp
  | none => rfl

theorem fileName_self {name : String} (h : '/' ∉ name.toList) : fileName name = name := by
  rw [fileName, cutLast_of_not_mem h]

theorem fileName_slash {name : String} (h : '/' ∉ name.toList) (dir : String) :
    fileName (dir ++ "/" ++ name) = name := by
  have htext : (dir ++ "/" ++ name).toList = dir.toList ++ '/' :: name.toList := by simp
  rw [fileName, htext, cutLast_append_cons h]
  exact String.ofList_toList

theorem parent_slash {name : String} (h : '/' ∉ name.toList) (dir : String) :
    parent (dir ++ "/" ++ name) = dir := by
  have htext : (dir ++ "/" ++ name).toList = dir.toList ++ '/' :: name.toList := by simp
  rw [parent, htext, cutLast_append_cons h]
  exact String.ofList_toList

/-- A path that ends in a name does not end in a slash. -/
theorem dropSlashes_folder {name : String} (h : IsName name.toList) (folder : String) :
    dropSlashes (folder ++ name) = folder ++ name := by
  obtain ⟨c, cs, hreverse⟩ :=
    List.exists_cons_of_ne_nil (mt List.reverse_eq_nil_iff.1 h.ne_nil)
  have hc : c ≠ '/' := by
    rintro rfl
    exact h.noSlash (List.mem_reverse.1 (hreverse ▸ List.mem_cons_self ..))
  have hdrop : (folder ++ name).toList.reverse.dropWhile (· == '/') =
      (folder ++ name).toList.reverse := by
    rw [String.toList_append, List.reverse_append, hreverse, List.cons_append,
      List.dropWhile_cons_of_neg (by simpa using hc)]
  rw [dropSlashes, dropEndWhile, hdrop, List.reverse_reverse, String.ofList_toList]

/-! ### Folders -/

/-- The text before a file name: nothing, or something that ends in a slash. -/
def IsFolder (folder : String) : Prop := folder = "" ∨ folder.toList.getLast? = some '/'

theorem IsFolder.exists_dir {folder : String} (h : IsFolder folder) :
    folder = "" ∨ ∃ dir, folder = dir ++ "/" := by
  refine h.imp_right fun hlast => ?_
  obtain ⟨cs, hcs⟩ := List.getLast?_eq_some_iff.1 hlast
  refine ⟨.ofList cs, ?_⟩
  apply String.toList_inj.1
  simp [hcs]

theorem fileName_folder {folder name : String} (hfolder : IsFolder folder)
    (hname : '/' ∉ name.toList) : fileName (folder ++ name) = name := by
  rcases hfolder.exists_dir with rfl | ⟨dir, rfl⟩
  · rw [String.empty_append, fileName_self hname]
  · exact fileName_slash hname dir

/-- The slash of an absolute path. -/
def rootText (absolute : Bool) : List Char := if absolute then ['/'] else []

/-- A folder in its plain spelling: ordinary segments with a slash behind each of them and, where
there are any, possibly one before the first. -/
def IsPlainFolder (folder : String) : Prop :=
  ∃ absolute segments, (∀ s ∈ segments, IsName s) ∧ (absolute = true → segments ≠ []) ∧
    folder.toList = rootText absolute ++ folderText segments

theorem isFolder_folderText (absolute : Bool) (segments : List (List Char)) :
    IsFolder (.ofList (rootText absolute ++ folderText segments)) := by
  rcases List.eq_nil_or_concat segments with rfl | ⟨dirs, name, rfl⟩
  · cases absolute with
    | false => exact .inl rfl
    | true => exact .inr rfl
  · refine .inr ?_
    simp [folderText]

theorem not_isPlainFolder_root : ¬ IsPlainFolder "/" := by
  rintro ⟨absolute, segments, hnames, hne, htext⟩
  cases segments with
  | nil =>
    cases absolute with
    | true => exact hne rfl rfl
    | false => cases htext
  | cons segment segments =>
    obtain ⟨c, cs, rfl⟩ := List.exists_cons_of_ne_nil (hnames segment (by simp)).ne_nil
    cases absolute <;> simp [rootText] at htext

theorem startsWith_slash_cons (c : Char) (cs : List Char) :
    startsWith ['/'] (c :: cs) = decide ('/' = c) := by
  rw [startsWith, dropPrefix?]
  by_cases h : '/' = c
  · rw [if_pos h, decide_eq_true h]
    rfl
  · rw [if_neg h, decide_eq_false h]
    rfl

theorem cleanSegments_concat {absolute : Bool} {name : List Char} (h : IsOrdinary name)
    (dirs : List (List Char)) :
    cleanSegments absolute (dirs ++ [name]) = cleanSegments absolute dirs ++ [name] := by
  simp [cleanSegments, pushSegment_of_ordinary h]

theorem cleanSegments_dot (absolute : Bool) (dirs : List (List Char)) :
    cleanSegments absolute (dirs ++ [['.']]) = cleanSegments absolute dirs := by
  simp [cleanSegments, pushSegment]

/-- A plainly written folder is not changed by cleaning. -/
theorem cleanSegments_of_folder {absolute : Bool} {dir : List Char} {segments : List (List Char)}
    (hdir : dir ≠ []) (hnames : ∀ s ∈ segments, IsName s)
    (htext : dir ++ ['/'] = rootText absolute ++ folderText segments) :
    startsWith ['/'] dir = absolute ∧ cleanSegments absolute (splitOn '/' dir) = segments := by
  -- a root adds an empty segment, which cleaning leaves out
  have hsplit : splitOn '/' dir = (if absolute then [[]] else []) ++ segments := by
    have hrest : splitOn '/' (folderText segments) = segments ++ [[]] := by
      rw [← List.append_nil (folderText segments)]
      exact splitOn_folderText (fun s hs => (hnames s hs).noSlash) []
    have hroot : splitOn '/' (rootText absolute ++ folderText segments) =
        (if absolute then [[]] else []) ++ segments ++ [[]] := by
      cases absolute with
      | false => exact hrest
      | true => exact (splitOn_append_cons '/' [] _).trans (congrArg ([[]] ++ ·) hrest)
    have hend : splitOn '/' (dir ++ ['/']) = splitOn '/' dir ++ [[]] :=
      splitOn_append_cons '/' dir []
    rw [htext, hroot] at hend
    exact List.append_cancel_right hend.symm
  constructor
  · obtain ⟨c, cs, rfl⟩ := List.exists_cons_of_ne_nil hdir
    rw [startsWith_slash_cons]
    cases absolute with
    | true =>
      obtain ⟨rfl, -⟩ := List.cons.inj htext
      rfl
    | false =>
      cases segments with
      | nil => cases htext
      | cons segment segments =>
        have hsegment := hnames segment (List.mem_cons_self ..)
        obtain ⟨x, xs, rfl⟩ := List.exists_cons_of_ne_nil hsegment.ne_nil
        obtain ⟨rfl, -⟩ := List.cons.inj htext
        exact decide_eq_false fun hc => hsegment.noSlash (hc ▸ List.mem_cons_self ..)
  · have hempty : pushSegment absolute [] [] = [] := rfl
    have hordinary : segments.foldl (pushSegment absolute) [] = segments.reverse ++ [] :=
      foldl_pushSegment_ordinary (fun s hs => (hnames s hs).toIsOrdinary) []
    rw [hsplit, cleanSegments]
    cases absolute <;> simp [hempty, hordinary]

/-- A path that ends in a name: its directories are cleaned, and the name stays. -/
theorem clean?_of_splitOn {path : String} {dirs : List (List Char)} {name : List Char}
    (hname : IsName name) (hslashes : '\\' ∉ path.toList)
    (hsplit : splitOn '/' path.toList = dirs ++ [name]) :
    let absolute := startsWith ['/'] path.toList
    let kept := cleanSegments absolute dirs
    clean? path =
      if kept.head? = some ['.', '.'] then none
      else some (.ofList (rootText absolute ++ folderText kept ++ name)) := by
  intro absolute kept
  have hhead : (kept ++ [name]).head? = some ['.', '.'] ↔ kept.head? = some ['.', '.'] := by
    cases kept with
    | nil => simp [hname.ne_up]
    | cons first rest => rfl
  have htext : (if absolute then '/' :: joinWith ['/'] (kept ++ [name])
      else joinWith ['/'] (kept ++ [name])) = rootText absolute ++ folderText kept ++ name := by
    rw [joinWith_concat, rootText]
    cases absolute <;> rfl
  have hclean : '\\' ∉ (String.ofList (rootText absolute ++ folderText kept ++ name)).toList := by
    simp only [String.toList_ofList, List.mem_append, folderText, List.mem_flatMap, not_or]
    refine ⟨⟨by cases absolute <;> decide, ?_⟩, hname.noBackslash⟩
    rintro ⟨segment, hsegment, hc⟩
    rcases hc with hc | hc
    · -- a segment that is kept stands in the path
      apply hslashes
      rw [← joinWith_splitOn '/' path.toList, hsplit]
      exact mem_joinWith_of_mem (List.mem_append_left _ (mem_cleanSegments hsegment)) hc
    · exact absurd hc (by decide)
  simp only [clean?, hsplit, cleanSegments_concat hname.toIsOrdinary, beq_iff_eq]
  simp only [absolute, kept] at hhead htext hclean ⊢
  rw [htext, withSlashes_eq_self hclean]
  simp only [hhead]

/-- From the folder above a file, an import of a name leads to the name in the cleaned folder. -/
theorem join?_sibling {dir name : String} (hdir : dir ≠ "") (hname : IsName name.toList)
    (hslashes : '\\' ∉ dir.toList) :
    let absolute := startsWith ['/'] dir.toList
    let kept := cleanSegments absolute (splitOn '/' dir.toList)
    join? dir ("./" ++ name) =
      if kept.head? = some ['.', '.'] then none
      else some (.ofList (rootText absolute ++ folderText kept ++ name.toList)) := by
  intro absolute kept
  have hempty : dir.isEmpty = false := by simpa using hdir
  have htext : (dir ++ "/" ++ ("./" ++ name)).toList =
      dir.toList ++ '/' :: '.' :: '/' :: name.toList := by simp
  have hstart : startsWith ['/'] (dir ++ "/" ++ ("./" ++ name)).toList = absolute := by
    obtain ⟨c, cs, hcs⟩ := List.exists_cons_of_ne_nil (mt String.toList_eq_nil_iff.1 hdir)
    simp only [absolute, htext, hcs, List.cons_append, startsWith_slash_cons]
  have hsplit : splitOn '/' (dir ++ "/" ++ ("./" ++ name)).toList =
      splitOn '/' dir.toList ++ [['.']] ++ [name.toList] := by
    have hrest : splitOn '/' ('.' :: '/' :: name.toList) = [['.']] ++ [name.toList] := by
      rw [← splitOn_of_not_mem hname.noSlash]
      exact splitOn_append_cons '/' ['.'] name.toList
    rw [htext, splitOn_append_cons, hrest, List.append_assoc]
  have hbackslash : '\\' ∉ (dir ++ "/" ++ ("./" ++ name)).toList := by
    simp [htext, hslashes, hname.noBackslash]
  rw [join?, hempty, if_neg Bool.false_ne_true, clean?_of_splitOn hname hbackslash hsplit, hstart,
    cleanSegments_dot]

/-- The path of a sibling is the cleaned directory with the name behind it. -/
theorem exists_of_join?_sibling {dir name path : String} (hdir : dir ≠ "")
    (hname : IsName name.toList) (hslashes : '\\' ∉ dir.toList)
    (h : join? dir ("./" ++ name) = some path) :
    ∃ absolute kept, (∀ s ∈ kept, IsName s) ∧
      (startsWith ['/'] dir.toList = absolute ∧
        cleanSegments absolute (splitOn '/' dir.toList) = kept) ∧
      path = .ofList (rootText absolute ++ folderText kept) ++ name := by
  rw [join?_sibling hdir hname hslashes] at h
  split at h
  · cases h
  · next hhead =>
    refine ⟨_, _, fun s hs => ?_, ⟨rfl, rfl⟩, ?_⟩
    · have hsegment := mem_cleanSegments hs
      refine ⟨isOrdinary_of_mem_cleanSegments hhead hs, not_mem_of_mem_splitOn hsegment, ?_⟩
      intro hc
      apply hslashes
      rw [← joinWith_splitOn '/' dir.toList]
      exact mem_joinWith_of_mem hsegment hc
    · apply String.toList_inj.1
      simp [← Option.some.inj h]

/-- In a directory that is clean, the path of a sibling is what is written. -/
theorem join?_of_isPlainFolder {dir name : String} (hdir : dir ≠ "") (hname : IsName name.toList)
    (hslashes : '\\' ∉ dir.toList) (h : IsPlainFolder (dir ++ "/")) :
    join? dir ("./" ++ name) = some (dir ++ "/" ++ name) := by
  obtain ⟨absolute, segments, hnames, -, htext⟩ := h
  have hdirText : dir.toList ≠ [] := mt String.toList_eq_nil_iff.1 hdir
  obtain ⟨hstart, hkept⟩ := cleanSegments_of_folder hdirText hnames (by simpa using htext)
  have hhead : segments.head? ≠ some ['.', '.'] := fun hup =>
    (hnames _ (List.mem_of_head? hup)).ne_up rfl
  rw [join?_sibling hdir hname hslashes, hstart, hkept, if_neg hhead, ← htext]
  congr 1
  apply String.toList_inj.1
  simp

theorem join?_sibling_empty {name : String} (hname : IsName name.toList) :
    join? "" ("./" ++ name) = some name := by
  have hsplit : splitOn '/' ("./" ++ name).toList = [['.']] ++ [name.toList] := by
    rw [String.toList_append, ← splitOn_of_not_mem hname.noSlash]
    exact splitOn_append_cons '/' ['.'] name.toList
  have hbackslash : '\\' ∉ ("./" ++ name).toList := by simp [hname.noBackslash]
  have hstart : startsWith ['/'] ("./" ++ name).toList = false := by
    simp [startsWith, dropPrefix?]
  have hkept : cleanSegments false [['.']] = [] := by decide
  rw [join?, if_pos (by rfl), clean?_of_splitOn hname hbackslash hsplit, hstart, hkept]
  simp [rootText]

end Path

namespace Resolver

/-- The extension of a source differs from that of its output, and neither has a slash. -/
theorem of_mem_sourceExtensions {ext : List Char} {source : String}
    (h : source ∈ sourceExtensions ext) :
    '/' ∉ ext ∧ '/' ∉ source.toList ∧ source.toList ≠ ext := by
  unfold sourceExtensions at h
  split at h
  · next hext => subst hext; revert source; decide
  · split at h
    · next hext => subst hext; revert source; decide
    · split at h
      · next hext => subst hext; revert source; decide
      · split at h
        · next hext => subst hext; revert source; decide
        · cases h

theorem slash_not_mem_probed {ext : String} (h : ext ∈ probedExtensions) : '/' ∉ ext.toList := by
  revert ext
  decide

/-- Sources have another extension than what is compiled from them. -/
theorem fileName_ne_of_mem_compiledFrom {path file : String} (h : file ∈ compiledFrom path) :
    Path.fileName file ≠ Path.fileName path := by
  unfold compiledFrom at h
  split at h
  · next stem ext hcut =>
    split at h
    · cases h
    · obtain ⟨source, hsource, rfl⟩ := List.mem_map.1 h
      obtain ⟨hext, hslash, hne⟩ := of_mem_sourceExtensions hsource
      have hpath : path = String.ofList stem ++ ("." ++ String.ofList ext) := by
        apply String.toList_inj.1
        simp [eq_of_cutLast hcut]
      rw [String.append_assoc, Path.fileName_append (by simpa using hslash), hpath,
        Path.fileName_append (by simpa using hext)]
      intro heq
      have htext := congrArg String.toList heq
      simp only [String.toList_append, String.toList_ofList, List.append_cancel_left_eq] at htext
      exact hne htext
  · cases h

/-- Of the meanings of a path only the path itself has its file name, unless that is the name of an
index file. -/
theorem eq_of_mem_meanings {path file : String} (h : file ∈ meanings path)
    (hname : Path.fileName file = Path.fileName path) :
    file = path ∨ file = path ++ "/" ++ Path.fileName path := by
  simp only [meanings, List.cons_append, List.mem_cons, List.mem_append, List.mem_map] at h
  rcases h with rfl | (hcompiled | ⟨ext, hext, rfl⟩) | ⟨ext, hext, rfl⟩
  · exact .inl rfl
  · exact absurd hname (fileName_ne_of_mem_compiledFrom hcompiled)
  · -- an extension makes the file name longer
    have hslash : '/' ∉ ("." ++ ext).toList := by simpa using slash_not_mem_probed hext
    rw [String.append_assoc, Path.fileName_append hslash] at hname
    have hlength := congrArg (List.length ∘ String.toList) hname
    simp at hlength
  · have hindex : path ++ "/index." ++ ext = path ++ "/" ++ ("index." ++ ext) := by
      apply String.toList_inj.1
      simp
    have hslash : '/' ∉ ("index." ++ ext).toList := by simpa using slash_not_mem_probed hext
    rw [hindex, Path.fileName_slash hslash] at hname
    exact .inr (by rw [hindex, hname])

variable {r : Resolver}

theorem append_name_ne_empty {folder name : String} (hname : Path.IsName name.toList) :
    folder ++ name ≠ "" := by
  simp [← String.toList_eq_nil_iff, hname.ne_nil]

theorem probe?_folder_self {folder name : String} (hname : Path.IsName name.toList)
    (hknown : folder ++ name ∈ r.files) : r.probe? (folder ++ name) = some (folder ++ name) :=
  probe?_of_dropSlashes (Path.dropSlashes_folder hname folder) (append_name_ne_empty hname) hknown

/-- What a path that ends in a file name leads to is one of its meanings. -/
theorem mem_meanings_of_probe? {folder name file : String} (hname : Path.IsName name.toList)
    (h : r.probe? (folder ++ name) = some file) : file ∈ meanings (folder ++ name) := by
  have hpath := Path.dropSlashes_folder hname folder
  rw [probe?_eq_find?, probedFiles_of_ne (hpath.symm ▸ append_name_ne_empty hname), hpath] at h
  exact List.mem_of_find?_eq_some h

end Resolver

namespace Project

/-- The paths of a project are written with slashes. -/
theorem backslash_not_mem_of_mem_paths {config : Config} {files : List SourceNode} {path : String}
    (h : path ∈ (ofFiles config files).paths) : '\\' ∉ path.toList := by
  obtain ⟨node, hnode⟩ := StringMap.mem_keys.1 h
  have hfirst : (nodesOf files).find? path = some node := hnode
  rw [find?_nodesOf] at hfirst
  split at hfirst
  · cases hfirst
  · have hat := List.find?_some hfirst
    simp only [isFileAt, Bool.and_eq_true, beq_iff_eq] at hat
    rw [← hat.2]
    exact Path.backslash_not_mem_withSlashes _

end Project

/-! ### Imports of a sibling -/

namespace Resolver

variable {r : Resolver} {folder a b : String}

/-- Below a folder with a name, the import leads to the cleaned folder, and there the file has its
path only if cleaning has changed nothing. -/
theorem probe?_sibling_iff {dir : String} (hdir : dir ≠ "") (hb : Path.IsName b.toList)
    (hbackslash : '\\' ∉ dir.toList) (hknown : dir ++ "/" ++ b ∈ r.files) :
    (Path.join? dir ("./" ++ b)).bind r.probe? = some (dir ++ "/" ++ b) ↔
      Path.IsPlainFolder (dir ++ "/") := by
  constructor
  · intro h
    obtain ⟨path, hpath, hprobe⟩ := Option.bind_eq_some_iff.1 h
    obtain ⟨absolute, kept, hnames, hkept, rfl⟩ :=
      Path.exists_of_join?_sibling hdir hb hbackslash hpath
    have hname :
        Path.fileName (.ofList (Path.rootText absolute ++ Path.folderText kept) ++ b) = b :=
      Path.fileName_folder (Path.isFolder_folderText absolute kept) hb.noSlash
    have hsame := (Path.fileName_slash hb.noSlash dir).trans hname.symm
    -- a meaning with the name of the file is the path itself or an index file
    rcases eq_of_mem_meanings (mem_meanings_of_probe? hb hprobe) hsame with heq | heq
    · have htext : (dir ++ "/").toList = Path.rootText absolute ++ Path.folderText kept := by
        refine List.append_cancel_right (?_ : _ ++ b.toList = _ ++ b.toList)
        simpa using congrArg String.toList heq
      refine ⟨absolute, kept, hnames, ?_, htext⟩
      rintro rfl rfl
      simp [Path.rootText, hdir] at htext
    · -- an index file of a folder that has its name: the cleaned folder would be longer than itself
      rw [hname] at heq
      have htext : dir.toList ++ ['/'] =
          Path.rootText absolute ++ Path.folderText (kept ++ [b.toList]) := by
        refine List.append_cancel_right (?_ : _ ++ b.toList = _ ++ b.toList)
        simpa [Path.folderText] using congrArg String.toList heq
      have hall : ∀ s ∈ kept ++ [b.toList], Path.IsName s :=
        List.forall_mem_append.2 ⟨hnames, List.forall_mem_singleton.2 hb⟩
      obtain ⟨-, hlonger⟩ :=
        Path.cleanSegments_of_folder (mt String.toList_eq_nil_iff.1 hdir) hall htext
      rw [hkept.2] at hlonger
      simp at hlonger
  · intro h
    rw [Path.join?_of_isPlainFolder hdir hb hbackslash h, Option.bind_some,
      probe?_folder_self hb hknown]

/-- A folder and the import of a file in it from another one. -/
theorem script?_sibling_iff (hfolder : Path.IsFolder folder) (ha : '/' ∉ a.toList)
    (hb : Path.IsName b.toList) (hquery : '?' ∉ b.toList) (hbackslash : '\\' ∉ folder.toList)
    (hknown : folder ++ b ∈ r.files) :
    r.script? (folder ++ a) ("./" ++ b) = some (folder ++ b) ↔ Path.IsPlainFolder folder := by
  have hrelative : isRelative ("./" ++ b) = true := by
    simp [isRelative, startsWith, dropPrefix?]
  rw [script?_of_isRelative hrelative (by simpa using hquery)]
  rcases hfolder.exists_dir with rfl | ⟨dir, rfl⟩
  · have hparent : Path.parent ("" ++ a) = "" := by
      rw [String.empty_append, Path.parent, cutLast_of_not_mem ha]
    have hplain : Path.IsPlainFolder "" := ⟨false, [], by simp, by simp, rfl⟩
    refine iff_of_true ?_ hplain
    rw [hparent, Path.join?_sibling_empty hb, Option.bind_some]
    simpa using probe?_folder_self hb hknown
  · rw [Path.parent_slash ha]
    by_cases hdir : dir = ""
    · -- the slash of the root is lost, and no meaning of the bare name has it
      subst hdir
      rw [Path.join?_sibling_empty hb, Option.bind_some]
      refine iff_of_false (fun h => ?_) Path.not_isPlainFolder_root
      have hname : Path.fileName b = b := Path.fileName_self hb.noSlash
      have hsame := (Path.fileName_slash hb.noSlash "").trans hname.symm
      have hprobe : r.probe? ("" ++ b) = some ("" ++ "/" ++ b) := by
        rw [String.empty_append]
        exact h
      have hmeaning := mem_meanings_of_probe? hb hprobe
      rw [String.empty_append] at hmeaning
      rcases eq_of_mem_meanings hmeaning hsame with heq | heq
      · have hlength := congrArg (List.length ∘ String.toList) heq
        simp at hlength
      · have hlength := congrArg (List.length ∘ String.toList) heq
        simp [hname, hb.ne_nil] at hlength
    · exact probe?_sibling_iff hdir hb (fun hc => hbackslash (by simp [hc])) hknown

end Resolver

/-- **Siblings find each other in plainly written folders.** In a project with the files `a` and `b`
of one folder, the import `./b` in `a` leads to `b` if and only if the folder is written plainly:
with a slash behind every segment, and no segment that is empty, `.` or `..`. The root directory
does not count as such a folder. -/
theorem sibling_import_resolves_iff (config : Config) (files : List SourceNode)
    (folder a b : String) (hfolder : Path.IsFolder folder) (ha : '/' ∉ a.toList)
    (hb : Path.IsOrdinary b.toList) (hslash : '/' ∉ b.toList) (hquery : '?' ∉ b.toList)
    (hknown : folder ++ b ∈ (Project.ofFiles config files).paths) :
    (Project.ofFiles config files).resolver.script? (folder ++ a) ("./" ++ b) =
      some (folder ++ b) ↔ Path.IsPlainFolder folder := by
  have hbackslash : '\\' ∉ folder.toList ++ b.toList := by
    rw [← String.toList_append]
    exact Project.backslash_not_mem_of_mem_paths hknown
  rw [List.mem_append, not_or] at hbackslash
  exact Resolver.script?_sibling_iff hfolder ha ⟨hb, hslash, hbackslash.2⟩ hquery hbackslash.1
    (Project.mem_resolver_files.2 hknown)

/-- Two files of one folder. -/
def siblings (folder : String) : List SourceNode :=
  [.file (folder ++ "a.ts") "", .file (folder ++ "b.ts") ""]

/-- The project of two files of one folder. -/
def siblingProject (folder : String) : Project := .ofFiles .default (siblings folder)

theorem sibling_import_resolves_below_root :
    "/srv/b.ts" ∈ (siblingProject "/srv/").paths ∧ Path.IsPlainFolder "/srv/" ∧
      (siblingProject "/srv/").resolver.script? "/srv/a.ts" "./b.ts" = some "/srv/b.ts" := by
  have hknown : "/srv/b.ts" ∈ (siblingProject "/srv/").paths := by decide +kernel
  have hplain : Path.IsPlainFolder "/srv/" :=
    ⟨true, ["srv".toList], by
      refine List.forall_mem_singleton.2 ⟨⟨?_, ?_, ?_⟩, ?_, ?_⟩ <;> decide, by simp, by decide⟩
  refine ⟨hknown, hplain, ?_⟩
  have hb : Path.IsOrdinary "b.ts".toList := ⟨by decide, by decide, by decide⟩
  exact (sibling_import_resolves_iff .default (siblings "/srv/") "/srv/" "a.ts" "b.ts"
    (.inr (by decide)) (by decide) hb (by decide) (by decide) hknown).2 hplain

/-- Two files of a folder, the import of one of which does not lead to it. -/
def IsSiblingLost (folder : String) : Prop :=
  folder ++ "a.ts" ∈ (siblingProject folder).paths ∧
    folder ++ "b.ts" ∈ (siblingProject folder).paths ∧
    (siblingProject folder).resolver.script? (folder ++ "a.ts") "./b.ts" = none

instance (folder : String) : Decidable (IsSiblingLost folder) :=
  inferInstanceAs (Decidable (_ ∧ _ ∧ _))

/-- In the root directory, and in a folder that is written with a dot, siblings do not find each
other. -/
theorem sibling_import_lost : IsSiblingLost "/" ∧ IsSiblingLost "./" := by
  decide +kernel

end DeadCode
