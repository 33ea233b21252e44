import DeadCode.Proofs.DirectoryImport

/-!
# DeadCode.Proofs.ManifestEntry

The entries of a manifest and the directory of its package. An entry without `..` is looked up below
the directory, and so is the source that stands for compiled output. Two ways lead out of it. An
entry that names nothing, such as `.`, means the directory itself, and so a file that is named like
it. And the extension that is dropped from a source is what follows the last dot of the whole path,
so where the file has no dot the directory is cut at one of its own
(`Resolver.entries_stay_inside_iff`).
-/

namespace DeadCode

namespace Text

variable {p : Char → Bool} {as bs cs : List Char}

/-! ### Dropping at the end -/

/-- What is dropped from the end stays behind the last character that is kept. -/
theorem dropEndWhile_append_of_any (h : bs.any (fun c => !p c) = true) :
    dropEndWhile p (as ++ bs) = as ++ dropEndWhile p bs := by
  have hne : (bs.reverse.dropWhile p).isEmpty = false := by
    obtain ⟨c, hc, hp⟩ := List.any_eq_true.1 h
    refine Bool.eq_false_iff.2 fun hempty => ?_
    have hall := List.dropWhile_eq_nil_iff.1 (List.isEmpty_iff.1 hempty)
    simp [hall c (List.mem_reverse.2 hc)] at hp
  rw [dropEndWhile, List.reverse_append, List.dropWhile_append, hne, if_neg Bool.false_ne_true,
    List.reverse_append, List.reverse_reverse, dropEndWhile]

theorem dropEndWhile_append_of_not_any (h : bs.any (fun c => !p c) = false) :
    dropEndWhile p (as ++ bs) = dropEndWhile p as := by
  have hall : ∀ c ∈ bs.reverse, p c = true := by simpa using h
  rw [dropEndWhile, List.reverse_append, List.dropWhile_append_of_pos hall, dropEndWhile]

theorem dropEndWhile_eq_nil_iff : dropEndWhile p cs = [] ↔ cs.any (fun c => !p c) = false := by
  simp [dropEndWhile]

theorem length_dropEndWhile_le (p : Char → Bool) (cs : List Char) :
    (dropEndWhile p cs).length ≤ cs.length := by
  have hlength := congrArg List.length (dropEndWhile_append_takeWhile p cs)
  rw [List.length_append] at hlength
  omega

/-- Pieces that are put behind others, each with its separator. -/
theorem joinWith_append_flatMap {sep : List Char} {pieces : List (List Char)} (h : pieces ≠ [])
    (more : List (List Char)) :
    joinWith sep (pieces ++ more) = joinWith sep pieces ++ more.flatMap (sep ++ ·) := by
  obtain ⟨piece, rest, rfl⟩ := List.exists_cons_of_ne_nil h
  rw [List.cons_append, joinWith_cons, joinWith_cons, List.flatMap_append, List.append_assoc]

end Text

open Text

namespace Path

variable {dir path rel : String}

/-! ### Paths below a clean directory -/

/-- The segments that are put on the stack when there is no `..`. -/
def ordinarySegments (cs : List Char) : List (List Char) :=
  (splitOn '/' cs).filter fun s => !(s.isEmpty || s == ['.'])

/-- Without a `..`, cleaning only leaves out segments that say nothing. -/
theorem foldl_pushSegment_of_not_up {absolute : Bool} {segments : List (List Char)}
    (h : ['.', '.'] ∉ segments) (stack : List (List Char)) :
    segments.foldl (pushSegment absolute) stack =
      (segments.filter fun s => !(s.isEmpty || s == ['.'])).reverse ++ stack := by
  induction segments generalizing stack with
  | nil => rfl
  | cons s segments ih =>
    obtain ⟨hs, hsegments⟩ := List.ne_and_not_mem_of_not_mem_cons h
    by_cases hskip : (s.isEmpty || s == ['.']) = true
    · have hpush : pushSegment absolute stack s = stack := by
        unfold pushSegment
        rw [if_pos hskip]
      rw [List.foldl_cons, hpush, ih hsegments, List.filter_cons, if_neg (by simp [hskip])]
    · have hordinary : IsOrdinary s := by
        simp only [Bool.or_eq_true, List.isEmpty_iff, beq_iff_eq, not_or] at hskip
        exact ⟨hskip.1, hskip.2, Ne.symm hs⟩
      rw [List.foldl_cons, pushSegment_of_ordinary hordinary, ih hsegments, List.filter_cons,
        if_pos (by simpa using hskip), List.reverse_cons, List.append_assoc]
      rfl

/-- The text behind a directory in the clean form of a path below it. -/
def textBelow (segments : List (List Char)) : List Char :=
  (segments.flatMap (['/'] ++ ·)).map fun c => if c = '\\' then '/' else c

theorem clean?_eq (path : String) :
    let absolute := startsWith ['/'] path.toList
    let kept := cleanSegments absolute (splitOn '/' path.toList)
    clean? path = if kept.head? = some ['.', '.'] then none
      else some (withSlashes (.ofList (rootText absolute ++ joinWith ['/'] kept))) := by
  intro absolute kept
  simp only [clean?, beq_iff_eq]
  refine if_congr Iff.rfl rfl (congrArg (fun cs => some (withSlashes (.ofList cs))) ?_)
  cases h : startsWith ['/'] path.toList <;> simp [absolute, kept, h, rootText]

section Clean

variable (hdir : clean? dir = some dir) (hne : dir ≠ "") (hroot : dir ≠ "/")
include hdir hne hroot

/-- A directory in clean form, other than the root, is the segments that it is cleaned to. -/
theorem segments_of_clean? :
    let absolute := startsWith ['/'] dir.toList
    let kept := cleanSegments absolute (splitOn '/' dir.toList)
    '\\' ∉ dir.toList ∧ kept ≠ [] ∧ kept.head? ≠ some ['.', '.'] ∧
      dir.toList = rootText absolute ++ joinWith ['/'] kept := by
  intro absolute kept
  rw [clean?_eq] at hdir
  split at hdir
  · cases hdir
  · next hhead =>
    have heq := Option.some.inj hdir
    have hbackslash : '\\' ∉ dir.toList := heq ▸ backslash_not_mem_withSlashes _
    -- what is kept of the directory has no backslash either
    have hkept : '\\' ∉ (String.ofList (rootText absolute ++ joinWith ['/'] kept)).toList := by
      rw [String.toList_ofList, List.mem_append, not_or]
      refine ⟨by cases h : absolute <;> decide, fun hc => ?_⟩
      rcases mem_joinWith hc with hc | ⟨s, hs, hc⟩
      · exact absurd hc (by decide)
      · exact hbackslash (mem_of_mem_splitOn (mem_cleanSegments hs) hc)
    rw [withSlashes_eq_self hkept] at heq
    refine ⟨hbackslash, fun hnil => ?_, hhead, ?_⟩
    · have hroots : dir = .ofList (rootText absolute ++ joinWith ['/'] []) := hnil ▸ heq.symm
      cases habsolute : absolute <;> rw [habsolute] at hroots
      · exact hne hroots
      · exact hroot hroots
    · rw [← String.toList_ofList (l := rootText absolute ++ joinWith ['/'] kept), heq]

/-- Such a directory has other characters than slashes. -/
theorem any_of_clean? : dir.toList.any (· != '/') = true := by
  obtain ⟨-, hsome, hhead, -⟩ := segments_of_clean? hdir hne hroot
  obtain ⟨s, hs⟩ := List.exists_mem_of_ne_nil _ hsome
  have hsegment := mem_cleanSegments hs
  obtain ⟨c, hc⟩ := List.exists_mem_of_ne_nil s (isOrdinary_of_mem_cleanSegments hhead hs).ne_nil
  refine List.any_eq_true.2 ⟨c, mem_of_mem_splitOn hsegment hc, bne_iff_ne.2 ?_⟩
  rintro rfl
  exact not_mem_of_mem_splitOn hsegment hc

/-- Without `..`, the segments of a path are put behind a clean directory. -/
theorem join?_of_clean? (hup : ['.', '.'] ∉ splitOn '/' rel.toList) :
    join? dir rel = some (.ofList (dir.toList ++ textBelow (ordinarySegments rel.toList))) := by
  obtain ⟨hbackslash, hsome, hhead, htext⟩ := segments_of_clean? hdir hne hroot
  have hsplit : splitOn '/' (dir ++ "/" ++ rel).toList =
      splitOn '/' dir.toList ++ splitOn '/' rel.toList := by
    rw [← splitOn_append_cons]
    simp
  have hstart : startsWith ['/'] (dir ++ "/" ++ rel).toList = startsWith ['/'] dir.toList := by
    obtain ⟨c, cs, hcs⟩ := List.exists_cons_of_ne_nil (mt String.toList_eq_nil_iff.1 hne)
    simp only [String.toList_append, hcs, List.cons_append, startsWith_slash_cons]
  -- without a `..` the segments of the entry cannot cancel those of the directory
  have hkept :
      cleanSegments (startsWith ['/'] dir.toList) (splitOn '/' (dir ++ "/" ++ rel).toList) =
        cleanSegments (startsWith ['/'] dir.toList) (splitOn '/' dir.toList) ++
          ordinarySegments rel.toList := by
    rw [hsplit, cleanSegments, List.foldl_append, foldl_pushSegment_of_not_up hup,
      List.reverse_append, List.reverse_reverse]
    rfl
  rw [join?, if_neg (mt String.isEmpty_iff.1 hne), clean?_eq, hstart, hkept]
  generalize cleanSegments (startsWith ['/'] dir.toList) (splitOn '/' dir.toList) = kept at *
  rw [List.head?_append_of_ne_nil _ hsome, if_neg hhead, joinWith_append_flatMap hsome,
    ← List.append_assoc, ← htext]
  refine congrArg some (String.toList_inj.1 ?_)
  have hdirText := congrArg String.toList (withSlashes_eq_self hbackslash)
  rw [withSlashes, String.toList_ofList] at hdirText
  rw [withSlashes, String.toList_ofList, String.toList_ofList, List.map_append, hdirText,
    String.toList_ofList, textBelow]

end Clean

theorem mem_ordinarySegments {cs s : List Char} (h : s ∈ ordinarySegments cs) : '/' ∉ s :=
  not_mem_of_mem_splitOn (List.mem_filter.1 h).1

theorem dot_mem_textBelow {segments : List (List Char)} :
    '.' ∈ textBelow segments ↔ ∃ s ∈ segments, '.' ∈ s := by
  simp only [textBelow, List.mem_map, List.mem_flatMap, List.mem_append, List.mem_singleton]
  constructor
  · rintro ⟨c, ⟨s, hs, hc⟩, hdot⟩
    split at hdot
    · exact absurd hdot (by decide)
    · subst hdot
      exact ⟨s, hs, hc.resolve_left (by decide)⟩
  · rintro ⟨s, hs, hc⟩
    exact ⟨'.', ⟨s, hs, .inr hc⟩, by decide⟩

/-- Behind the directory stands something other than slashes if some segment says more than that. -/
theorem any_textBelow {segments : List (List Char)} (h : ∀ s ∈ segments, '/' ∉ s) :
    (textBelow segments).any (· != '/') = true ↔
      ∃ s ∈ segments, s.any (· != '\\') = true := by
  simp only [textBelow, List.any_eq_true, List.mem_map, List.mem_flatMap, List.mem_append,
    List.mem_singleton, bne_iff_ne]
  constructor
  · rintro ⟨_, ⟨c, ⟨s, hs, hc⟩, rfl⟩, hslash⟩
    split at hslash
    · exact absurd rfl hslash
    · next hbackslash => exact ⟨s, hs, c, hc.resolve_left hslash, hbackslash⟩
  · rintro ⟨s, hs, c, hc, hbackslash⟩
    refine ⟨c, ⟨c, ⟨s, hs, .inr hc⟩, if_neg hbackslash⟩, ?_⟩
    rintro rfl
    exact h s hs hc

theorem textBelow_eq_cons {segments : List (List Char)}
    (h : (textBelow segments).any (· != '/') = true) :
    ∃ rest, textBelow segments = '/' :: rest ∧ rest.any (· != '/') = true := by
  cases segments with
  | nil => cases h
  | cons s segments => exact ⟨_, rfl, h⟩

/-- A path below a directory that says more than slashes lies in the directory. -/
theorem isWithin_dropSlashes {rest : List Char} (h : rest.any (· != '/') = true) :
    isWithin (dropSlashes (.ofList (dir.toList ++ '/' :: rest))) dir = true := by
  have htext : dir.toList ++ '/' :: rest = (dir.toList ++ ['/']) ++ rest := by simp
  rw [isWithin_iff, dropSlashes, String.toList_ofList, String.toList_ofList, htext,
    dropEndWhile_append_of_any h]
  exact .inr ⟨_, rfl⟩

/-- Nothing is left without the slashes at the end when there are only slashes. -/
theorem dropSlashes_eq_empty_iff {cs : List Char} :
    dropSlashes (.ofList cs) = "" ↔ cs.any (· != '/') = false := by
  rw [dropSlashes, String.toList_ofList, ← String.toList_eq_nil_iff, String.toList_ofList]
  exact dropEndWhile_eq_nil_iff

/-- What is not longer than a directory does not lie in it. -/
theorem not_isWithin_of_length_le (hne : dir ≠ "") (h : path.toList.length ≤ dir.toList.length) :
    isWithin path dir = false := by
  refine Bool.eq_false_iff.2 fun hwithin => ?_
  have hlength := ((isWithin_iff.1 hwithin).resolve_left hne).length_le
  rw [List.length_append, List.length_singleton] at hlength
  omega

end Path

namespace Resolver

open DeadCode.Path

variable {r : Resolver} {dir entry file : String} {text : List Char}

/-! ### Entries -/

/-- What an entry says, without the `./` before it. -/
def entryText (entry : String) : List Char :=
  dropRepeated "./".toList entry.length entry.toList

/-- Whether an entry names something below the directory of its manifest: some segment of it is more
than a dot or backslashes. -/
def HasName (text : List Char) : Prop :=
  ∃ s ∈ ordinarySegments text, s.any (· != '\\') = true

/-- Whether an entry is compiled output that has no extension. -/
def IsBareOutput (text : List Char) : Prop :=
  ∃ cut ∈ cutFirst '/' text, .ofList cut.1 ∈ outputDirectories ∧
    ∀ s ∈ ordinarySegments cut.2, '.' ∉ s

/-- Whether a path is left when a directory is cut at its last dot. -/
def HasInnerDot (dir : String) : Prop :=
  ∃ cut ∈ cutLast '.' dir.toList, cut.1.any (· != '/') = true

/-- Whether an entry can lead out of the directory of its manifest: it names nothing, or it is
compiled output without an extension and the directory has a dot. -/
def Escapes (dir entry : String) : Prop :=
  dir ≠ "" ∧ entryText entry ≠ [] ∧ '*' ∉ entryText entry ∧
    (¬ HasName (entryText entry) ∨ IsBareOutput (entryText entry) ∧ HasInnerDot dir)

instance (text : List Char) : Decidable (HasName text) := inferInstanceAs (Decidable (∃ _ ∈ _, _))

instance (text : List Char) : Decidable (IsBareOutput text) :=
  inferInstanceAs (Decidable (∃ _ ∈ _, _ ∧ _))

instance (dir : String) : Decidable (HasInnerDot dir) := inferInstanceAs (Decidable (∃ _ ∈ _, _))

instance (dir entry : String) : Decidable (Escapes dir entry) :=
  inferInstanceAs (Decidable (_ ∧ _ ∧ _ ∧ _))

/-- The look-up of an entry with its text named once. -/
theorem entryFile?_eq (r : Resolver) (dir entry : String) :
    r.entryFile? dir entry =
      if (entryText entry).isEmpty || (entryText entry).contains '*' then none
      else
        ((join? dir (.ofList (entryText entry))).bind r.probe?).or
          ((sourceOf? (entryText entry)).bind fun path => (join? dir path).bind r.probeStem?) := by
  simp only [entryFile?, Option.orElse_eq_orElse, Option.orElse_eq_or]
  rfl

theorem entryFile?_of_text (htext : entryText entry ≠ []) (hstar : '*' ∉ entryText entry) :
    r.entryFile? dir entry =
      ((join? dir (.ofList (entryText entry))).bind r.probe?).or
        ((sourceOf? (entryText entry)).bind fun path => (join? dir path).bind r.probeStem?) := by
  rw [entryFile?_eq, if_neg (by simpa using ⟨htext, hstar⟩)]

/-- Dropping `./` from the start drops segments and makes none. -/
theorem mem_splitOn_of_dropRepeated {n : Nat} {cs s : List Char}
    (h : s ∈ splitOn '/' (dropRepeated "./".toList n cs)) : s ∈ splitOn '/' cs := by
  induction n generalizing cs with
  | zero => exact h
  | succ n ih =>
    rw [dropRepeated] at h
    split at h
    · next rest hrest =>
      have htext : "./".toList ++ rest = ['.'] ++ '/' :: rest := rfl
      rw [dropPrefix?_eq_some_iff.1 hrest, htext, splitOn_append_cons]
      exact List.mem_append_right _ (ih h)
    · exact h

theorem eq_of_cutFirst {c : Char} {cs before after : List Char}
    (h : cutFirst c cs = some (before, after)) : cs = before ++ c :: after := by
  induction cs generalizing before with
  | nil => cases h
  | cons x xs ih =>
    rw [cutFirst] at h
    split at h
    · next hx =>
      obtain ⟨rfl, rfl⟩ := Prod.mk.inj (Option.some.inj h)
      rw [hx, List.nil_append]
    · obtain ⟨cut, hcut, heq⟩ := Option.map_eq_some_iff.1 h
      obtain ⟨rfl, rfl⟩ := Prod.mk.inj heq
      rw [List.cons_append, ← ih hcut]

/-- The source that stands for an entry in a directory of compiled output. -/
theorem sourceOf?_eq_some_iff {path : String} :
    sourceOf? text = some path ↔ ∃ cut ∈ cutFirst '/' text,
      .ofList cut.1 ∈ outputDirectories ∧ path = .ofList ("src/".toList ++ cut.2) := by
  have hsource : ∀ rest, "src/" ++ String.ofList rest = .ofList ("src/".toList ++ rest) :=
    fun rest => String.toList_inj.1 (by simp)
  unfold sourceOf?
  cases cutFirst '/' text with
  | none => simp
  | some cut => simp [hsource, eq_comm]

/-- Without the first segment of a path there is no `..` that was not there before. -/
theorem up_not_mem_of_cutFirst {cut : List Char × List Char} (hcut : cut ∈ cutFirst '/' text)
    (h : ['.', '.'] ∉ splitOn '/' text) : ['.', '.'] ∉ splitOn '/' cut.2 := by
  rw [eq_of_cutFirst (Option.mem_def.1 hcut), splitOn_append_cons, List.mem_append, not_or] at h
  exact h.2

theorem splitOn_source (rest : List Char) :
    splitOn '/' ("src/".toList ++ rest) = "src".toList :: splitOn '/' rest := by
  have htext : "src/".toList ++ rest = "src".toList ++ '/' :: rest := rfl
  have hsource : splitOn '/' "src".toList = ["src".toList] := by decide
  rw [htext, splitOn_append_cons, hsource, List.singleton_append]

theorem ordinarySegments_source (rest : List Char) :
    ordinarySegments ("src/".toList ++ rest) = "src".toList :: ordinarySegments rest := by
  rw [ordinarySegments, splitOn_source, List.filter_cons]
  rfl

theorem hasName_source (rest : List Char) : HasName ("src/".toList ++ rest) := by
  refine ⟨"src".toList, ?_, by decide⟩
  rw [ordinarySegments_source]
  exact List.mem_cons_self

theorem up_not_mem_source {rest : List Char} (h : ['.', '.'] ∉ splitOn '/' rest) :
    ['.', '.'] ∉ splitOn '/' ("src/".toList ++ rest) := by
  rw [splitOn_source, List.mem_cons, not_or]
  exact ⟨by decide, h⟩

section Below

variable (hdir : clean? dir = some dir) (hne : dir ≠ "") (hroot : dir ≠ "/")
include hdir hne hroot

/-- What names something below the directory leads to a file in it. -/
theorem isWithin_of_hasName (hup : ['.', '.'] ∉ splitOn '/' text) (hname : HasName text)
    (h : (join? dir (.ofList text)).bind r.probe? = some file) : isWithin file dir = true := by
  rw [join?_of_clean? hdir hne hroot (by rwa [String.toList_ofList]), Option.bind_some,
    String.toList_ofList] at h
  obtain ⟨rest, hrest, hany⟩ :=
    textBelow_eq_cons ((any_textBelow fun s => mem_ordinarySegments).2 hname)
  rw [hrest] at h
  exact isWithin_of_probe? (isWithin_dropSlashes hany) h

/-- The source of compiled output is looked up below `src` in the directory of the manifest. -/
theorem join?_source {rest : List Char} (hup : ['.', '.'] ∉ splitOn '/' rest) :
    join? dir (.ofList ("src/".toList ++ rest)) =
      some (.ofList (dir.toList ++ ("/src".toList ++ textBelow (ordinarySegments rest)))) := by
  have htext : textBelow ("src".toList :: ordinarySegments rest) =
      "/src".toList ++ textBelow (ordinarySegments rest) := by
    rw [textBelow, List.flatMap_cons, List.map_append]
    rfl
  rw [join?_of_clean? hdir hne hroot (by simpa using up_not_mem_source hup), String.toList_ofList,
    ordinarySegments_source, htext]

/-- The source that stands for compiled output lies in the directory, and so does the source without
its extension, as long as the extension is not looked for in the name of the directory. -/
theorem isWithin_of_probeStem? {rest : List Char} (hup : ['.', '.'] ∉ splitOn '/' rest)
    (hkeep : (∀ s ∈ ordinarySegments rest, '.' ∉ s) → ¬ HasInnerDot dir)
    (h : (join? dir (.ofList ("src/".toList ++ rest))).bind r.probeStem? = some file) :
    isWithin file dir = true := by
  obtain ⟨path, hpath, hprobe⟩ := Option.bind_eq_some_iff.1 h
  rw [probeStem?, Option.orElse_eq_orElse, Option.orElse_eq_or] at hprobe
  rcases Option.or_eq_some_iff.1 hprobe with hwhole | ⟨-, hstem⟩
  · have hsource : (join? dir (.ofList ("src/".toList ++ rest))).bind r.probe? = some file := by
      rw [hpath, Option.bind_some, hwhole]
    exact isWithin_of_hasName hdir hne hroot (up_not_mem_source hup) (hasName_source rest) hsource
  · obtain ⟨⟨stem, ext⟩, hcut, hstem⟩ := Option.bind_eq_some_iff.1 hstem
    rw [join?_source hdir hne hroot hup, Option.some.injEq] at hpath
    rw [← hpath, String.toList_ofList] at hcut
    by_cases hdot : '.' ∈ textBelow (ordinarySegments rest)
    · -- the last dot stands behind the directory
      obtain ⟨before, after, hbelow, hafter⟩ := exists_last_of_mem hdot
      rw [hbelow, ← List.append_assoc, ← List.append_assoc, cutLast_append_cons hafter,
        Option.some.injEq, Prod.mk.injEq, List.append_assoc] at hcut
      rw [← hcut.1] at hstem
      exact isWithin_of_probe? (isWithin_dropSlashes rfl) hstem
    -- the last dot stands in the directory, which `hkeep` rules out
    · have hnodot : '.' ∉ "/src".toList ++ textBelow (ordinarySegments rest) := by
        simp [hdot]
      rw [cutLast_append_of_not_mem hnodot] at hcut
      obtain ⟨cut, hcut, heq⟩ := Option.map_eq_some_iff.1 hcut
      refine absurd ⟨cut, hcut, ?_⟩ (hkeep fun s hs hc => hdot (dot_mem_textBelow.2 ⟨s, hs, hc⟩))
      rw [(Prod.mk.inj heq).1, ← Bool.not_eq_false]
      exact mt dropSlashes_eq_empty_iff.2 (dropSlashes_ne_empty_of_probe? hstem)

/-- An entry that names something stays inside, unless the directory is cut. -/
theorem isWithin_of_entryFile? (hup : ['.', '.'] ∉ splitOn '/' (entryText entry))
    (hname : HasName (entryText entry)) (hkeep : IsBareOutput (entryText entry) → ¬ HasInnerDot dir)
    (h : r.entryFile? dir entry = some file) : isWithin file dir = true := by
  rw [entryFile?_eq, Option.ite_none_left_eq_some] at h
  rcases Option.or_eq_some_iff.1 h.2 with hentry | ⟨-, hsource⟩
  · exact isWithin_of_hasName hdir hne hroot hup hname hentry
  · obtain ⟨path, hpath, hprobe⟩ := Option.bind_eq_some_iff.1 hsource
    obtain ⟨cut, hcut, houtput, rfl⟩ := sourceOf?_eq_some_iff.1 hpath
    exact isWithin_of_probeStem? hdir hne hroot (up_not_mem_of_cutFirst hcut hup)
      (fun hnodot => hkeep ⟨cut, hcut, houtput, hnodot⟩) hprobe

/-- An entry that names nothing leads to a file that is named like the directory. -/
theorem exists_outside_of_not_hasName (hup : ['.', '.'] ∉ splitOn '/' (entryText entry))
    (htext : entryText entry ≠ []) (hstar : '*' ∉ entryText entry)
    (hname : ¬ HasName (entryText entry)) :
    ∃ (r : Resolver) (file : String),
      r.entryFile? dir entry = some file ∧ isWithin file dir = false := by
  refine ⟨ofFiles (.ofList [dropSlashes dir]) "", dropSlashes dir, ?_, ?_⟩
  · have hslashes : (textBelow (ordinarySegments (entryText entry))).any (· != '/') = false :=
      Bool.eq_false_iff.2 fun hany => hname ((any_textBelow fun s => mem_ordinarySegments).1 hany)
    have hdrop : dropSlashes (.ofList
        (dir.toList ++ textBelow (ordinarySegments (entryText entry)))) = dropSlashes dir := by
      rw [dropSlashes, String.toList_ofList, dropEndWhile_append_of_not_any hslashes, dropSlashes]
    have hsome : dropSlashes dir ≠ "" := by
      intro hempty
      rw [← String.ofList_toList (s := dir), dropSlashes_eq_empty_iff,
        any_of_clean? hdir hne hroot] at hempty
      cases hempty
    rw [entryFile?_of_text htext hstar, join?_of_clean? hdir hne hroot (by simpa using hup),
      Option.bind_some, String.toList_ofList,
      probe?_of_dropSlashes hdrop hsome (StringSet.mem_ofList.2 (List.mem_singleton.2 rfl)),
      Option.some_or]
  · refine not_isWithin_of_length_le hne ?_
    rw [dropSlashes, String.toList_ofList]
    exact length_dropEndWhile_le _ _

/-- When the known files lie outside of the directory, what names something below it leads to
none. -/
theorem bind_probe?_eq_none (hfiles : ∀ x ∈ r.files, isWithin x dir = false)
    (hup : ['.', '.'] ∉ splitOn '/' text) (hname : HasName text) :
    (join? dir (.ofList text)).bind r.probe? = none := by
  by_contra hsome
  obtain ⟨file, hfile⟩ := Option.ne_none_iff_exists'.1 hsome
  obtain ⟨path, -, hprobe⟩ := Option.bind_eq_some_iff.1 hfile
  have houtside := hfiles file (mem_files_of_probe? hprobe)
  rw [isWithin_of_hasName hdir hne hroot hup hname hfile] at houtside
  cases houtside

/-- A source without an extension is cut at the last dot of the directory. -/
theorem bind_probeStem?_eq {rest : List Char} {cut : List Char × List Char}
    (hup : ['.', '.'] ∉ splitOn '/' rest) (hnodot : ∀ s ∈ ordinarySegments rest, '.' ∉ s)
    (hcut : cutLast '.' dir.toList = some cut) (hfiles : ∀ x ∈ r.files, isWithin x dir = false) :
    (join? dir (.ofList ("src/".toList ++ rest))).bind r.probeStem? = r.probe? (.ofList cut.1) := by
  have hwhole := bind_probe?_eq_none hdir hne hroot hfiles (up_not_mem_source hup)
    (hasName_source rest)
  have hdot : '.' ∉ "/src".toList ++ textBelow (ordinarySegments rest) := by
    simpa [dot_mem_textBelow] using hnodot
  rw [join?_source hdir hne hroot hup, Option.bind_some] at hwhole ⊢
  rw [probeStem?, Option.orElse_eq_orElse, Option.orElse_eq_or, hwhole, Option.none_or,
    String.toList_ofList, cutLast_append_of_not_mem hdot, hcut, Option.map_some, Option.bind_some]

/-- Where the directory is cut, an entry leads to a file that is named like what is left of it. -/
theorem exists_outside_of_isBareOutput (hup : ['.', '.'] ∉ splitOn '/' (entryText entry))
    (htext : entryText entry ≠ []) (hstar : '*' ∉ entryText entry)
    (hname : HasName (entryText entry)) (hbare : IsBareOutput (entryText entry))
    (hdot : HasInnerDot dir) :
    ∃ (r : Resolver) (file : String),
      r.entryFile? dir entry = some file ∧ isWithin file dir = false := by
  obtain ⟨cut, hcut, houtput, hnodot⟩ := hbare
  obtain ⟨stem, hstem, hany⟩ := hdot
  -- the only known file is the directory cut at its dot, which is shorter than the directory
  have houtside : isWithin (dropSlashes (.ofList stem.1)) dir = false := by
    refine not_isWithin_of_length_le hne ?_
    rw [dropSlashes, String.toList_ofList, String.toList_ofList]
    exact (length_dropEndWhile_le _ _).trans
      (Nat.le_of_lt (length_of_cutLast (Option.mem_def.1 hstem)))
  have hfiles : ∀ x ∈ (ofFiles (.ofList [dropSlashes (.ofList stem.1)]) "").files,
      isWithin x dir = false := by
    intro x hx
    rw [List.mem_singleton.1 (StringSet.mem_ofList.1 hx)]
    exact houtside
  refine ⟨ofFiles (.ofList [dropSlashes (.ofList stem.1)]) "", dropSlashes (.ofList stem.1), ?_,
    houtside⟩
  rw [entryFile?_of_text htext hstar, bind_probe?_eq_none hdir hne hroot hfiles hup hname,
    Option.none_or, sourceOf?_eq_some_iff.2 ⟨cut, hcut, houtput, rfl⟩, Option.bind_some,
    bind_probeStem?_eq hdir hne hroot (up_not_mem_of_cutFirst hcut hup) hnodot hstem hfiles]
  exact probe?_of_dropSlashes rfl (mt dropSlashes_eq_empty_iff.1 (by simp [hany]))
    (StringSet.mem_ofList.2 (List.mem_singleton.2 rfl))

end Below

/-- **Entries stay inside their package unless they escape.** Let `dir` be a directory in clean form
other than the root, and `entry` an entry without `..`. Every file to which any resolver leads the
entry lies in `dir` if and only if the entry does not escape: it must name something below `dir`,
and when it is compiled output without an extension, `dir` must not have a dot in its name. -/
theorem entries_stay_inside_iff {dir entry : String} (hdir : clean? dir = some dir)
    (hroot : dir ≠ "/") (hup : ".." ∉ segments entry) :
    (∀ (r : Resolver) (file : String), r.entryFile? dir entry = some file →
      isWithin file dir = true) ↔ ¬ Escapes dir entry := by
  have hup' : ['.', '.'] ∉ splitOn '/' (entryText entry) := fun hmem =>
    hup (List.mem_map_of_mem (mem_splitOn_of_dropRepeated hmem))
  constructor
  · rintro hinside ⟨hne, htext, hstar, hescape⟩
    obtain ⟨r, file, hfile, houtside⟩ : ∃ (r : Resolver) (file : String),
        r.entryFile? dir entry = some file ∧ isWithin file dir = false := by
      by_cases hname : HasName (entryText entry)
      · obtain ⟨hbare, hdot⟩ := hescape.resolve_left (not_not.2 hname)
        exact exists_outside_of_isBareOutput hdir hne hroot hup' htext hstar hname hbare hdot
      · exact exists_outside_of_not_hasName hdir hne hroot hup' htext hstar hname
    rw [hinside r file hfile] at houtside
    cases houtside
  · intro hkept r file hfile
    by_cases hne : dir = ""
    · exact isWithin_iff.2 (.inl hne)
    · have hsome := hfile
      rw [entryFile?_eq, Option.ite_none_left_eq_some] at hsome
      have htext : entryText entry ≠ [] ∧ '*' ∉ entryText entry := by simpa using hsome.1
      have hstays : ¬ (¬ HasName (entryText entry) ∨
          IsBareOutput (entryText entry) ∧ HasInnerDot dir) :=
        fun hescape => hkept ⟨hne, htext.1, htext.2, hescape⟩
      rw [not_or, not_not, not_and] at hstays
      exact isWithin_of_entryFile? hdir hne hroot hup' hstays.1 hstays.2 hfile

/-- A package in a directory with a dot, and a file that is named like the directory up to the
dot. -/
def versionResolver : Resolver :=
  ofFiles (.ofList ["packages/v1.2/src/main.ts", "packages/v1.ts"]) ""

theorem entries_stay_inside_version :
    ¬ Escapes "packages/v1.2" "./dist/main.js" ∧
      versionResolver.entryFile? "packages/v1.2" "./dist/main.js" =
        some "packages/v1.2/src/main.ts" ∧
      isWithin "packages/v1.2/src/main.ts" "packages/v1.2" = true := by
  have hkept : ¬ Escapes "packages/v1.2" "./dist/main.js" := by decide
  have hfile : versionResolver.entryFile? "packages/v1.2" "./dist/main.js" =
      some "packages/v1.2/src/main.ts" := by decide
  exact ⟨hkept, hfile, (entries_stay_inside_iff (by decide) (by decide) (by decide)).2
    hkept versionResolver _ hfile⟩

/-- An entry without `..` that leads to a file outside of the directory of its manifest, when no
other file is known. -/
def LeadsOutside (dir entry file : String) : Prop :=
  ".." ∉ segments entry ∧ (ofFiles (.ofList [file]) "").entryFile? dir entry = some file ∧
    isWithin file dir = false

instance (dir entry file : String) : Decidable (LeadsOutside dir entry file) :=
  inferInstanceAs (Decidable (_ ∧ _ ∧ _))

/-- Compiled output without an extension in a directory with a dot, an entry that means the
directory itself, and a directory that is the root or is not in clean form. -/
theorem entries_lead_outside :
    LeadsOutside "packages/v1.2" "dist/main" "packages/v1.ts" ∧
      LeadsOutside "packages/ui" "." "packages/ui.ts" ∧
      LeadsOutside "/" "main.js" "/main.js" ∧ LeadsOutside "./app" "main.js" "app/main.js" := by
  decide

end Resolver

end DeadCode
