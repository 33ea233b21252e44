import DeadCode.Proofs.CleanPath
import DeadCode.Resolver.Script
import Mathlib.Data.List.TakeWhile

/-!
# DeadCode.Proofs.RelativeImport

The way from one file to another as a relative import, `Path.specifier`: up to the nearest directory
that both files share, and down again to the target. A resolver that knows the target follows it,
whatever else it knows: neither aliases nor base directories are asked for a relative import, and
the path itself is the first of its meanings.
-/

namespace DeadCode

open Text

namespace Path

/-! ### Relative specifiers -/

/-- The directories of one file and the segments of another without the directories that they
share. The last segment of the second file is its name and not a directory. -/
def unshared : List (List Char) → List (List Char) → List (List Char) × List (List Char)
  | dir :: dirs, segment :: next :: segments =>
    if dir = segment then unshared dirs (next :: segments)
    else (dir :: dirs, segment :: next :: segments)
  | dirs, segments => (dirs, segments)

/-- The segments that lead out of directories: `..` for each of them, or `.` when there is none. -/
def climb (dirs : List (List Char)) : List (List Char) :=
  if dirs.isEmpty then [['.']] else List.replicate dirs.length ['.', '.']

/-- The relative import of `target` in the file `source`. -/
def specifier (source target : String) : String :=
  let (up, down) := unshared (splitOn '/' source.toList).dropLast (splitOn '/' target.toList)
  .ofList (joinWith ['/'] (climb up ++ down))

example : specifier "src/a.ts" "src/b.ts" = "./b.ts" := by decide +kernel

example : specifier "src/lib/a.ts" "src/lib" = "../lib" := by decide +kernel

/-- What is taken off both lists is the same. -/
theorem exists_shared (dirs : List (List Char)) {segments : List (List Char)}
    (hne : segments ≠ []) :
    (unshared dirs segments).2 ≠ [] ∧ ∃ shared,
      dirs = shared ++ (unshared dirs segments).1 ∧
        segments = shared ++ (unshared dirs segments).2 := by
  fun_induction unshared dirs segments with
  | case1 dirs segment next segments ih =>
    obtain ⟨hdown, shared, hdirs, hsegments⟩ := ih (by simp)
    refine ⟨hdown, segment :: shared, ?_, ?_⟩
    · rw [List.cons_append, ← hdirs]
    · rw [List.cons_append, ← hsegments]
  | case2 dir dirs segment next segments h => exact ⟨hne, [], rfl, rfl⟩
  | case3 dirs segments _ => exact ⟨hne, [], rfl, rfl⟩

/-! ### Going up and down again -/

/-- A path of ordinary segments, without backslashes. -/
structure IsClean (path : String) : Prop where
  ordinary : ∀ segment ∈ segments path, segment ≠ "" ∧ segment ≠ "." ∧ segment ≠ ".."
  noBackslash : '\\' ∉ path.toList

instance (path : String) : Decidable (IsClean path) :=
  decidable_of_iff
    ((∀ segment ∈ segments path, segment ≠ "" ∧ segment ≠ "." ∧ segment ≠ "..") ∧
      '\\' ∉ path.toList)
    ⟨fun h => ⟨h.1, h.2⟩, fun h => ⟨h.ordinary, h.noBackslash⟩⟩

theorem IsClean.isName {path : String} (h : IsClean path) :
    ∀ segment ∈ splitOn '/' path.toList, IsName segment := by
  intro segment hsegment
  obtain ⟨hempty, hdot, hup⟩ := h.ordinary _ (List.mem_map_of_mem hsegment)
  refine ⟨⟨?_, ?_, ?_⟩, not_mem_of_mem_splitOn hsegment, fun hc => h.noBackslash ?_⟩
  · rintro rfl
    exact hempty rfl
  · rintro rfl
    exact hdot rfl
  · rintro rfl
    exact hup rfl
  · rw [← joinWith_splitOn '/' path.toList]
    exact mem_joinWith_of_mem hsegment hc

/-- Climbing out of directories takes their segments off the stack. -/
theorem foldl_pushSegment_climb {up : List (List Char)} (h : ∀ segment ∈ up, IsOrdinary segment)
    (stack : List (List Char)) :
    (climb up).foldl (pushSegment false) (up.reverse ++ stack) = stack := by
  unfold climb
  cases up with
  | nil => rfl
  | cons dir up =>
    have hreverse : ∀ segment ∈ (dir :: up).reverse, IsOrdinary segment :=
      fun segment hsegment => h segment (List.mem_reverse.1 hsegment)
    simpa using foldl_pushSegment_up hreverse stack

theorem climb_proper (up : List (List Char)) :
    ∀ segment ∈ climb up, segment ≠ [] ∧ '/' ∉ segment := by
  intro segment hsegment
  unfold climb at hsegment
  split at hsegment
  · rw [List.mem_singleton.1 hsegment]
    decide
  · rw [List.eq_of_mem_replicate hsegment]
    decide

/-- Going up out of directories and down again leads to what is left. -/
theorem clean?_climb {shared up down : List (List Char)} (hshared : ∀ s ∈ shared, IsName s)
    (hup : ∀ s ∈ up, IsName s) (hdown : ∀ s ∈ down, IsName s) (hne : down ≠ []) :
    clean? (.ofList (joinWith ['/'] (shared ++ up ++ (climb up ++ down)))) =
      some (.ofList (joinWith ['/'] (shared ++ down))) := by
  have hdirs : ∀ s ∈ shared ++ up, IsName s :=
    fun s hs => (List.mem_append.1 hs).elim (hshared s) (hup s)
  have hkept : (shared ++ up ++ (climb up ++ down)).foldl (pushSegment false) [] =
      (shared ++ down).reverse := by
    rw [List.foldl_append, foldl_pushSegment_ordinary fun s hs => (hdirs s hs).toIsOrdinary,
      List.append_nil, List.reverse_append, List.foldl_append,
      foldl_pushSegment_climb fun s hs => (hup s hs).toIsOrdinary,
      foldl_pushSegment_ordinary fun s hs => (hdown s hs).toIsOrdinary, List.reverse_append]
  refine clean?_joinWith (by simp [hne]) ?_ hkept ?_
  · intro s hs
    rcases List.mem_append.1 hs with hs | hs
    · exact ⟨(hdirs s hs).ne_nil, (hdirs s hs).noSlash⟩
    · rcases List.mem_append.1 hs with hs | hs
      · exact climb_proper up s hs
      · exact ⟨(hdown s hs).ne_nil, (hdown s hs).noSlash⟩
  · exact fun s hs => (List.mem_append.1 hs).elim (hshared s) (hdown s)

/-- From the directory of a file its relative specifier leads to the target. -/
theorem join?_specifier {source target : String} (hsource : IsClean source)
    (htarget : IsClean target) : join? (parent source) (specifier source target) = some target := by
  obtain ⟨dirs, name, hsplit⟩ : ∃ dirs name, splitOn '/' source.toList = dirs ++ [name] :=
    ⟨_, _, (List.dropLast_concat_getLast (splitOn_ne_nil '/' source.toList)).symm⟩
  obtain ⟨hne, shared, hdirs, hsegments⟩ := exists_shared dirs (splitOn_ne_nil '/' target.toList)
  have hsourceName : ∀ s ∈ dirs ++ [name], IsName s := hsplit ▸ hsource.isName
  have hdirsName : ∀ s ∈ dirs, IsName s := fun s hs => hsourceName s (List.mem_append_left _ hs)
  have hparent : parent source = .ofList (joinWith ['/'] dirs) := by
    rw [← parent_joinWith (hsourceName name (by simp)).noSlash, ← hsplit, joinWith_splitOn,
      String.ofList_toList]
  have hspecifier : specifier source target = .ofList (joinWith ['/']
      (climb (unshared dirs (splitOn '/' target.toList)).1 ++
        (unshared dirs (splitOn '/' target.toList)).2)) := by
    rw [specifier, hsplit, List.dropLast_concat]
  have htargetName := htarget.isName
  have htext : String.ofList (joinWith ['/'] (splitOn '/' target.toList)) = target := by
    rw [joinWith_splitOn, String.ofList_toList]
  rw [hparent, hspecifier, join?_joinWith (fun s hs => (hdirsName s hs).ne_nil) (by simp [hne])]
  generalize (unshared dirs (splitOn '/' target.toList)).1 = up at *
  generalize (unshared dirs (splitOn '/' target.toList)).2 = down at *
  subst hdirs
  rw [hsegments] at htargetName htext
  rw [clean?_climb (fun s hs => hdirsName s (List.mem_append_left _ hs))
    (fun s hs => hdirsName s (List.mem_append_right _ hs))
    (fun s hs => htargetName s (List.mem_append_right _ hs)) hne, htext]

theorem IsClean.ne_empty {path : String} (h : IsClean path) : path ≠ "" := by
  rintro rfl
  exact (h.isName [] (by simp [splitOn, splitWhere])).ne_nil rfl

/-- A clean path has no slash at its end. -/
theorem IsClean.dropSlashes_eq {path : String} (h : IsClean path) : dropSlashes path = path := by
  have hlast : ∀ c cs, path.toList.reverse = c :: cs → c ≠ '/' := by
    rintro c cs hreverse rfl
    -- a slash at the end would leave an empty segment behind it
    have htext : path.toList = cs.reverse ++ '/' :: [] := by
      rw [← List.reverse_reverse path.toList, hreverse, List.reverse_cons]
    have hempty : [] ∈ splitOn '/' path.toList := by
      rw [htext, splitOn_append_cons]
      simp [splitOn, splitWhere]
    exact (h.isName [] hempty).ne_nil rfl
  have hdrop : path.toList.reverse.dropWhile (· == '/') = path.toList.reverse := by
    cases hreverse : path.toList.reverse with
    | nil => rfl
    | cons c cs => rw [List.dropWhile_cons_of_neg (by simpa using hlast c cs hreverse)]
  rw [dropSlashes, dropEndWhile, hdrop, List.reverse_reverse, String.ofList_toList]

/-- What a specifier consists of: the way up, and segments of the target. -/
theorem specifier_eq (source target : String) : ∃ up down, down ≠ [] ∧
    specifier source target = .ofList (joinWith ['/'] (climb up ++ down)) ∧
      ∀ s ∈ down, s ∈ splitOn '/' target.toList := by
  obtain ⟨hne, shared, -, hsegments⟩ :=
    exists_shared (splitOn '/' source.toList).dropLast (splitOn_ne_nil '/' target.toList)
  refine ⟨_, _, hne, rfl, fun s hs => ?_⟩
  rw [hsegments]
  exact List.mem_append_right _ hs

theorem isRelative_specifier (source target : String) :
    Resolver.isRelative (specifier source target) = true := by
  obtain ⟨up, down, hne, hspecifier, -⟩ := specifier_eq source target
  obtain ⟨first, rest, rfl⟩ := List.exists_cons_of_ne_nil hne
  rw [hspecifier, Resolver.isRelative, String.toList_ofList, climb]
  cases up with
  | nil => simp [joinWith, startsWith, dropPrefix?]
  | cons dir up => cases up <;> simp [joinWith, startsWith, dropPrefix?, List.replicate_succ]

/-- A specifier has no query when its target has none. -/
theorem query_not_mem_specifier (source : String) {target : String} (h : '?' ∉ target.toList) :
    '?' ∉ (specifier source target).toList := by
  obtain ⟨up, down, -, hspecifier, hsegments⟩ := specifier_eq source target
  rw [hspecifier, String.toList_ofList]
  intro hc
  rcases mem_joinWith hc with hc | ⟨s, hs, hc⟩
  · exact absurd hc (by decide)
  · rcases List.mem_append.1 hs with hs | hs
    · unfold climb at hs
      split at hs
      · rw [List.mem_singleton.1 hs] at hc
        exact absurd hc (by decide)
      · rw [List.eq_of_mem_replicate hs] at hc
        exact absurd hc (by decide)
    · apply h
      rw [← joinWith_splitOn '/' target.toList]
      exact mem_joinWith_of_mem (hsegments s hs) hc

end Path

namespace Resolver

variable {r : Resolver}

/-- The files that a probe asks for. -/
def probedFiles (path : String) : List String :=
  if Path.dropSlashes path = "" then [] else meanings (Path.dropSlashes path)

theorem probedFiles_of_ne {path : String} (h : Path.dropSlashes path ≠ "") :
    probedFiles path = meanings (Path.dropSlashes path) :=
  if_neg h

/-- A probe finds the first known one of the files that it asks for. -/
theorem probe?_eq_find? (r : Resolver) (path : String) :
    r.probe? path = (probedFiles path).find? r.contains := by
  simp only [probe?, probedFiles, String.isEmpty_iff]
  split <;> rfl

/-- A known file is the first meaning of its own path, with any slashes behind it. -/
theorem probe?_of_dropSlashes {path file : String} (hpath : Path.dropSlashes path = file)
    (hne : file ≠ "") (hknown : file ∈ r.files) : r.probe? path = some file := by
  have hcontains : r.contains file = true := StringSet.contains_iff.2 hknown
  rw [probe?_eq_find?, probedFiles_of_ne (hpath ▸ hne), hpath, meanings, List.cons_append,
    List.cons_append, List.find?_cons_of_pos hcontains]

/-- A relative import is looked up from the directory of the file in which it stands. -/
theorem script?_of_isRelative {source spec : String} (hrelative : isRelative spec = true)
    (hquery : '?' ∉ spec.toList) :
    r.script? source spec = (Path.join? (Path.parent source) spec).bind r.probe? := by
  have hspec : String.ofList (spec.toList.takeWhile (· ≠ '?')) = spec := by
    rw [List.takeWhile_eq_self_iff.2, String.ofList_toList]
    intro c hc
    exact decide_eq_true fun e => hquery (e ▸ hc)
  have hempty : spec.isEmpty = false := by
    refine Bool.eq_false_iff.2 fun h => ?_
    rw [String.isEmpty_iff.1 h] at hrelative
    exact absurd hrelative (by decide)
  simp only [script?, hspec, hempty, hrelative]
  rfl

/-- A file is reached from every other one by its relative specifier. -/
theorem relative_import_resolves (r : Resolver) {source target : String}
    (hsource : Path.IsClean source) (htarget : Path.IsClean target)
    (hquery : '?' ∉ target.toList) (hknown : target ∈ r.files) :
    r.script? source (Path.specifier source target) = some target := by
  rw [script?_of_isRelative (Path.isRelative_specifier source target)
    (Path.query_not_mem_specifier source hquery), Path.join?_specifier hsource htarget,
    Option.bind_some, probe?_of_dropSlashes htarget.dropSlashes_eq htarget.ne_empty hknown]

/-- A resolver that is full of traps: another meaning of the path, and aliases and a base directory
that would match the import. -/
def crowdedResolver : Resolver :=
  ((ofFiles (.ofList ["src/ui/Button.js", "src/ui/Button.ts", "ui/Button.js"]) "src").addAlias
    ⟨"../", ["ui/"], false⟩).addBase "src/pages"

theorem relative_import_resolves_crowded :
    Path.IsClean "src/pages/admin/Home.tsx" ∧ Path.IsClean "src/ui/Button.js" ∧
      "src/ui/Button.js" ∈ crowdedResolver.files ∧
      Path.specifier "src/pages/admin/Home.tsx" "src/ui/Button.js" = "../../ui/Button.js" ∧
      crowdedResolver.script? "src/pages/admin/Home.tsx"
        (Path.specifier "src/pages/admin/Home.tsx" "src/ui/Button.js") =
          some "src/ui/Button.js" := by
  have hsource : Path.IsClean "src/pages/admin/Home.tsx" := by decide +kernel
  have htarget : Path.IsClean "src/ui/Button.js" := by decide +kernel
  have hknown : "src/ui/Button.js" ∈ crowdedResolver.files := by decide +kernel
  exact ⟨hsource, htarget, hknown, by decide +kernel,
    relative_import_resolves crowdedResolver hsource htarget (by decide +kernel) hknown⟩

end Resolver

end DeadCode
