import DeadCode.Proofs.SegmentStack

/-!
# DeadCode.Proofs.Separators

Paths with backslashes. Cleaning turns backslashes into slashes at the end, when the segments have
been divided at the slashes only, so a segment with a backslash is one ordinary segment whatever
stands in it. This module compares the clean form of a path with that of its spelling with slashes:

* `Path.SparesBackslashes`: no `..` cancels a segment with a backslash. A path that is written with
  backslashes alone is such a path (`Path.sparesBackslashes_of_not_mem`).
* `Path.foldl_cutSegments`: cutting the segments that are left gives the same stack as cutting all
  segments first.
* `Path.separators_irrelevant_iff`: the separators make no difference exactly when the result is
  what cleaning promises, a path of ordinary segments.
-/

namespace DeadCode.Path

open Text

variable {absolute : Bool} {path : String} {s : List Char}
  {stack segments xs ys : List (List Char)}

/-! ### Cutting at backslashes -/

theorem splitOn_cons_of_ne {sep c : Char} (h : c ≠ sep) (cs : List Char) :
    ∃ first rest, splitOn sep (c :: cs) = (c :: first) :: rest := by
  obtain ⟨first, rest, hsplit⟩ := List.exists_cons_of_ne_nil (splitOn_ne_nil sep cs)
  rw [splitOn] at hsplit
  exact ⟨first, rest, by rw [splitOn, splitWhere, hsplit, if_neg (by simpa using h)]⟩

/-- The segments, cut at their backslashes as well. -/
def cutSegments (segments : List (List Char)) : List (List Char) := segments.flatMap (splitOn '\\')

theorem cutSegments_append (xs ys : List (List Char)) :
    cutSegments (xs ++ ys) = cutSegments xs ++ cutSegments ys := List.flatMap_append

theorem cutSegments_singleton (s : List Char) : cutSegments [s] = splitOn '\\' s :=
  List.flatMap_singleton ..

theorem cutSegments_of_not_mem (h : ∀ s ∈ segments, '\\' ∉ s) :
    cutSegments segments = segments := by
  induction segments with
  | nil => rfl
  | cons s segments ih =>
    obtain ⟨hs, hsegments⟩ := List.forall_mem_cons.1 h
    rw [cutSegments, List.flatMap_cons, splitOn_of_not_mem hs, ← cutSegments, ih hsegments]
    rfl

theorem cutSegments_ne_nil (h : segments ≠ []) : cutSegments segments ≠ [] := by
  obtain ⟨s, rest, rfl⟩ := List.exists_cons_of_ne_nil h
  rw [cutSegments, List.flatMap_cons]
  exact List.append_ne_nil_of_left_ne_nil (splitOn_ne_nil '\\' s) _

/-- Only an empty segment alone is cut into an empty segment alone. -/
theorem eq_of_cutSegments (h : cutSegments segments = [[]]) : segments = [[]] := by
  cases segments with
  | nil => cases h
  | cons s rest =>
    obtain ⟨first, pieces, hsplit⟩ := List.exists_cons_of_ne_nil (splitOn_ne_nil '\\' s)
    rw [cutSegments, List.flatMap_cons, hsplit, List.cons_append, ← cutSegments] at h
    obtain ⟨rfl, hnil⟩ := List.cons.inj h
    obtain ⟨rfl, hrest⟩ := List.append_eq_nil_iff.1 hnil
    have hs : s = [] := by
      rw [← joinWith_splitOn '\\' s, hsplit]
      rfl
    rw [hs, not_not.1 (mt cutSegments_ne_nil (not_not.2 hrest))]

theorem slash_not_mem_cutSegments (h : ∀ s ∈ segments, '/' ∉ s) :
    ∀ piece ∈ cutSegments segments, '/' ∉ piece := by
  intro piece hpiece hc
  obtain ⟨s, hs, hpiece⟩ := List.mem_flatMap.1 hpiece
  exact h s hs (mem_of_mem_splitOn hpiece hc)

theorem map_eq_self (h : '\\' ∉ s) : (s.map fun c => if c = '\\' then '/' else c) = s := by
  have hplain : '\\' ∉ (String.ofList s).toList := by rwa [String.toList_ofList]
  have htext := congrArg String.toList (withSlashes_eq_self hplain)
  rwa [withSlashes, String.toList_ofList, String.toList_ofList] at htext

/-- A segment with slashes for its backslashes. -/
theorem map_eq_joinWith (s : List Char) :
    (s.map fun c => if c = '\\' then '/' else c) = joinWith ['/'] (splitOn '\\' s) := by
  induction hn : s.length using Nat.strongRecOn generalizing s with
  | _ n ih =>
    by_cases hmem : '\\' ∈ s
    · -- the first backslash divides the segment into a text without any and a shorter segment
      obtain ⟨first, rest, rfl, hfirst⟩ := List.eq_append_cons_of_mem hmem
      have hrest := ih rest.length (by simp at hn; omega) rest rfl
      rw [splitOn_append_cons, splitOn_of_not_mem hfirst,
        joinWith_append (by simp) (splitOn_ne_nil '\\' rest), ← hrest, List.map_append,
        map_eq_self hfirst]
      rfl
    · rw [splitOn_of_not_mem hmem, map_eq_self hmem]
      rfl

/-- The path of some segments, with slashes for their backslashes, is the path of the pieces. -/
theorem withSlashes_ofSegments (absolute : Bool) (segments : List (List Char)) :
    withSlashes (ofSegments absolute segments) = ofSegments absolute (cutSegments segments) := by
  have hjoin : (joinWith ['/'] segments).map (fun c => if c = '\\' then '/' else c) =
      joinWith ['/'] (cutSegments segments) := by
    induction segments with
    | nil => rfl
    | cons s segments ih =>
      by_cases hnil : segments = []
      · subst hnil
        rw [joinWith_singleton, map_eq_joinWith, cutSegments_singleton]
      · have hcons : s :: segments = [s] ++ segments := rfl
        rw [hcons, joinWith_append (by simp) hnil, cutSegments_append,
          joinWith_append (cutSegments_ne_nil (by simp)) (cutSegments_ne_nil hnil),
          joinWith_singleton, List.map_append, List.map_cons, ih, map_eq_joinWith,
          cutSegments_singleton]
        rfl
  apply String.toList_inj.1
  rw [withSlashes, String.toList_ofList, toList_ofSegments, toList_ofSegments, List.map_append,
    hjoin]
  cases absolute <;> rfl

/-- Turning backslashes round cuts the segments further. -/
theorem splitOn_withSlashes (path : String) :
    splitOn '/' (withSlashes path).toList = cutSegments (splitOn '/' path.toList) := by
  have hpath : path = ofSegments false (splitOn '/' path.toList) := by
    apply String.toList_inj.1
    rw [toList_ofSegments, joinWith_splitOn]
    rfl
  have hslash : ∀ s ∈ splitOn '/' path.toList, '/' ∉ s := fun s => not_mem_of_mem_splitOn
  conv => lhs; rw [hpath, withSlashes_ofSegments, toList_ofSegments]
  exact splitOn_joinWith (slash_not_mem_cutSegments hslash)
    (cutSegments_ne_nil (splitOn_ne_nil '/' path.toList))

/-! ### Segments with backslashes that stay -/

/-- No `..` cancels a segment with a backslash: behind each of them the path does not climb. -/
def SparesBackslashes : List (List Char) → Prop
  | [] => True
  | s :: after => ('\\' ∈ s → ¬ Climbs after) ∧ SparesBackslashes after

instance decidableSparesBackslashes :
    (segments : List (List Char)) → Decidable (SparesBackslashes segments)
  | [] => inferInstanceAs (Decidable True)
  | s :: after =>
    have := decidableSparesBackslashes after
    inferInstanceAs (Decidable (('\\' ∈ s → ¬ Climbs after) ∧ SparesBackslashes after))

/-- A path without slashes is one segment, behind which nothing stands. -/
theorem sparesBackslashes_of_not_mem (path : String) (h : '/' ∉ path.toList) :
    SparesBackslashes (splitOn '/' path.toList) := by
  rw [splitOn_of_not_mem h]
  exact ⟨fun _ => not_climbs_nil, trivial⟩

theorem SparesBackslashes.of_append (h : SparesBackslashes (xs ++ ys)) : SparesBackslashes xs := by
  induction xs with
  | nil => trivial
  | cons s xs ih =>
    obtain ⟨hs, hrest⟩ := h
    exact ⟨fun hc hclimbs => hs hc (hclimbs.append_right ys), ih hrest⟩

theorem SparesBackslashes.not_climbs (h : SparesBackslashes (xs ++ s :: ys)) (hs : '\\' ∈ s) :
    ¬ Climbs ys := by
  induction xs with
  | nil => exact h.1 hs
  | cons x xs ih => exact ih h.2

/-- What stands on top of the stack was put there by a segment behind which every other ordinary
segment has been cancelled again. -/
theorem exists_of_top {top : List Char}
    (h : segments.foldl (pushSegment absolute) [] = top :: stack) (htop : IsOrdinary top) :
    ∃ before after, segments = before ++ top :: after ∧
      before.foldl (pushSegment absolute) [] = stack ∧ downs after = ups after := by
  induction hn : segments.length using Nat.strongRecOn generalizing segments top stack with
  | _ n ih =>
    rcases List.eq_nil_or_concat' segments with rfl | ⟨init, s, rfl⟩
    · cases h
    · rw [List.length_append, List.length_singleton] at hn
      rw [List.foldl_append, List.foldl_cons, List.foldl_nil] at h
      have hpush := pushes_pushSegment absolute (init.foldl (pushSegment absolute) []) s
      rw [h] at hpush
      generalize hfold : init.foldl (pushSegment absolute) [] = xs at hpush
      cases hpush with
      | idle hs =>
        obtain ⟨before, after, rfl, hbefore, hcount⟩ := ih _ (by omega) hfold htop rfl
        refine ⟨before, after ++ [s], by simp, hbefore, ?_⟩
        rw [downs_append, ups_append, downs_cons_of_not hs.not_isOrdinary,
          ups_cons_of_ne hs.ne_up, hcount]
        rfl
      | down => exact ⟨init, [], rfl, hfold, rfl⟩
      | @pop last hlast =>
        -- the segment that `..` takes off was put there likewise, and so was `top` below it
        have hordinary := isOrdinary_top hfold hlast
        obtain ⟨middle, after, rfl, hmiddle, hafter⟩ := ih _ (by omega) hfold hordinary rfl
        rw [List.length_append] at hn
        obtain ⟨before, between, rfl, hbefore, hbetween⟩ := ih _ (by omega) hmiddle htop rfl
        refine ⟨before, between ++ last :: (after ++ [['.', '.']]), by simp, hbefore, ?_⟩
        rw [downs_append, ups_append, downs_cons_of_isOrdinary hordinary, ups_cons_of_ne hlast,
          downs_append, ups_append, downs_cons_of_not not_isOrdinary_up, ups_cons_up, hafter,
          hbetween]
        simp
      | pile => exact absurd htop not_isOrdinary_up
      | climb => exact absurd htop not_isOrdinary_up

/-- So the segment that `..` takes off has no backslash. -/
theorem SparesBackslashes.not_mem_top {top : List Char}
    (h : SparesBackslashes (segments ++ [['.', '.']]))
    (hfold : segments.foldl (pushSegment absolute) [] = top :: stack) (htop : IsOrdinary top) :
    '\\' ∉ top := by
  intro hc
  obtain ⟨before, after, rfl, -, hcount⟩ := exists_of_top hfold htop
  rw [List.append_assoc, List.cons_append] at h
  refine h.not_climbs hc (climbs_concat.2 (.inr ?_))
  rw [downs_append, ups_append, downs_cons_of_not not_isOrdinary_up, ups_cons_up, hcount]
  simp

theorem isOrdinary_of_backslash (h : '\\' ∈ s) : IsOrdinary s := by
  refine ⟨?_, ?_, ?_⟩
  all_goals
    intro heq
    subst heq
    exact absurd h (by decide)

/-- Every segment with a backslash is left. -/
theorem SparesBackslashes.mem_cleanSegments (h : SparesBackslashes segments) (hs : s ∈ segments)
    (hc : '\\' ∈ s) : s ∈ cleanSegments absolute segments := by
  induction segments using List.reverseRecOn with
  | nil => cases hs
  | append_singleton segments x ih =>
    rw [cleanSegments_append_singleton, List.mem_reverse]
    rcases List.mem_append.1 hs with hbefore | hlast
    · have hmem : s ∈ segments.foldl (pushSegment absolute) [] :=
        List.mem_reverse.1 (ih h.of_append hbefore)
      have hpush := pushes_pushSegment absolute (segments.foldl (pushSegment absolute) []) x
      generalize pushSegment absolute (segments.foldl (pushSegment absolute) []) x = result
        at hpush ⊢
      generalize hfold : segments.foldl (pushSegment absolute) [] = stack at hpush hmem
      cases hpush with
      | idle => exact hmem
      | down => exact List.mem_cons_of_mem _ hmem
      | pop htop =>
        refine (List.mem_cons.1 hmem).resolve_left fun heq => ?_
        exact h.not_mem_top hfold (isOrdinary_top hfold htop) (heq ▸ hc)
      | pile => exact List.mem_cons_of_mem _ hmem
      | root => exact hmem
      | climb => cases hmem
    · rw [← List.mem_singleton.1 hlast, pushSegment_of_ordinary (isOrdinary_of_backslash hc)]
      exact List.mem_cons_self

/-! ### Cutting what is left -/

theorem cutSegments_reverse_cons (s : List Char) (xs : List (List Char)) :
    cutSegments (s :: xs).reverse = cutSegments xs.reverse ++ splitOn '\\' s := by
  rw [List.reverse_cons, cutSegments_append, cutSegments_singleton]

/-- When no segment with a backslash is cancelled, the segments can be cut before or after the
cancellation. -/
theorem foldl_cutSegments {rooted : Bool} (hrooted : absolute = true → rooted = true)
    (h : SparesBackslashes segments) :
    (cutSegments segments).foldl (pushSegment rooted) [] =
      (cutSegments (cleanSegments absolute segments)).foldl (pushSegment rooted) [] := by
  induction segments using List.reverseRecOn with
  | nil => rfl
  | append_singleton segments s ih =>
    rw [cutSegments_append, List.foldl_append, ih h.of_append, cutSegments_singleton,
      cleanSegments_append_singleton, cleanSegments]
    have hdots : splitOn '\\' ['.', '.'] = [['.', '.']] := by decide
    have hpush := pushes_pushSegment absolute (segments.foldl (pushSegment absolute) []) s
    generalize pushSegment absolute (segments.foldl (pushSegment absolute) []) s = result
      at hpush ⊢
    generalize hfold : segments.foldl (pushSegment absolute) [] = stack at hpush ⊢
    -- each step is done before the cut as it is done after it; only a popped segment has to be free
    -- of backslashes
    cases hpush with
    | idle hs =>
      have hplain : '\\' ∉ s := fun hc => hs.not_isOrdinary (isOrdinary_of_backslash hc)
      rw [splitOn_of_not_mem hplain, List.foldl_cons, pushSegment_of_isIdle hs]
      rfl
    | down => rw [cutSegments_reverse_cons, List.foldl_append]
    | pop htop =>
      have hordinary := isOrdinary_top hfold htop
      rw [cutSegments_reverse_cons, splitOn_of_not_mem (h.not_mem_top hfold hordinary),
        List.foldl_append, hdots]
      simp only [List.foldl_cons, List.foldl_nil]
      rw [pushSegment_of_ordinary hordinary, pushSegment_up hordinary]
    | pile => simp only [cutSegments_reverse_cons, List.foldl_append]
    | root habsolute => rw [hrooted habsolute]; rfl
    | climb => rfl

/-! ### Clean forms -/

theorem startsWith_withSlashes (h : path.toList.head? ≠ some '\\') :
    startsWith ['/'] (withSlashes path).toList = startsWith ['/'] path.toList := by
  rw [withSlashes, String.toList_ofList]
  cases hpath : path.toList with
  | nil => rfl
  | cons c cs =>
    have hc : c ≠ '\\' := by
      intro heq
      rw [hpath, heq] at h
      exact h rfl
    rw [List.map_cons, if_neg hc, startsWith_slash_cons, startsWith_slash_cons]

theorem startsWith_withSlashes_of_absolute (h : startsWith ['/'] path.toList = true) :
    startsWith ['/'] (withSlashes path).toList = true := by
  rw [startsWith_withSlashes, h]
  intro hhead
  obtain ⟨rest, hrest⟩ := startsWith_iff.1 h
  rw [← hrest] at hhead
  exact absurd (Option.some.inj hhead) (by decide)

/-- A path that climbs does not start with a backslash, as its first segment would be cancelled. -/
theorem SparesBackslashes.head?_ne (h : SparesBackslashes (splitOn '/' path.toList))
    (hclimbs : Climbs (splitOn '/' path.toList)) : path.toList.head? ≠ some '\\' := by
  intro hhead
  obtain ⟨cs, hcs⟩ := List.head?_eq_some_iff.1 hhead
  obtain ⟨first, rest, hsplit⟩ := splitOn_cons_of_ne (by decide : '\\' ≠ '/') cs
  rw [hcs, hsplit] at h hclimbs
  have hc : '\\' ∈ '\\' :: first := List.mem_cons_self
  exact h.1 hc (climbs_of_climbs_cons hclimbs (isOrdinary_of_backslash hc))

/-- A path that climbs above its start does so with slashes too. -/
theorem clean?_withSlashes_eq_none (h : SparesBackslashes (splitOn '/' path.toList))
    (hnone : clean? path = none) : clean? (withSlashes path) = none := by
  rw [clean?_eq_withSlashes] at hnone ⊢
  obtain ⟨hrelative, hclimbs⟩ : startsWith ['/'] path.toList = false ∧
      Climbs (splitOn '/' path.toList) := by simpa using hnone
  rw [if_pos]
  rw [startsWith_withSlashes (h.head?_ne hclimbs), splitOn_withSlashes]
  refine ⟨hrelative, head?_cleanSegments_iff.1 ?_⟩
  rw [cleanSegments, List.head?_reverse, foldl_cutSegments id h]
  -- a `..` stands first among the segments that are left
  obtain ⟨kept, hkept⟩ := List.head?_eq_some_iff.1 (head?_cleanSegments_iff.2 hclimbs)
  have hcut : cutSegments (['.', '.'] :: kept) = ['.', '.'] :: cutSegments kept := rfl
  rw [hkept, hcut, List.foldl_cons]
  exact getLast?_foldl rfl (cutSegments kept)

/-- A result that is absolute when it should be can be cleaned once more. -/
theorem clean?_eq_clean?_withSlashes {text : String}
    (h : SparesBackslashes (splitOn '/' path.toList)) (htext : clean? path = some text)
    (hstart : startsWith ['/'] text.toList = startsWith ['/'] (withSlashes path).toList) :
    clean? text = clean? (withSlashes path) := by
  rw [clean?_eq_withSlashes, Option.ite_none_left_eq_some, Option.some.injEq] at htext
  have hslash : ∀ s ∈ cleanSegments (startsWith ['/'] path.toList) (splitOn '/' path.toList),
      '/' ∉ s := fun s hs => not_mem_of_mem_splitOn (mem_cleanSegments hs)
  obtain ⟨before, hbefore, hsplit⟩ := splitOn_ofSegments (startsWith ['/'] path.toList) hslash
  have hrooted : startsWith ['/'] path.toList = true → startsWith ['/'] text.toList = true := by
    intro habsolute
    rw [hstart, startsWith_withSlashes_of_absolute habsolute]
  have hplain : cutSegments before = before := by
    refine cutSegments_of_not_mem fun s hs => ?_
    rw [hbefore s hs]
    exact List.not_mem_nil
  refine clean?_congr hstart ?_
  rw [splitOn_withSlashes, cleanSegments, cleanSegments, foldl_cutSegments hrooted h, ← htext.2,
    splitOn_withSlashes, hsplit, cutSegments_append, hplain, List.foldl_append,
    foldl_pushSegment_of_isIdle fun s hs => .inl (hbefore s hs)]

/-- The result has ordinary segments, and the root of the path, exactly when the segments with
backslashes are cut into ordinary ones. -/
theorem names_iff_pieces {text : String} (h : SparesBackslashes (splitOn '/' path.toList))
    (htext : clean? path = some text) :
    (∀ s ∈ names text, IsOrdinary s) ∧
        startsWith ['/'] text.toList = startsWith ['/'] path.toList ↔
      ∀ s ∈ splitOn '/' path.toList, '\\' ∈ s → ∀ piece ∈ splitOn '\\' s, IsOrdinary piece := by
  rw [clean?_eq_withSlashes, Option.ite_none_left_eq_some, Option.some.injEq,
    withSlashes_ofSegments] at htext
  obtain ⟨hclimbs, rfl⟩ := htext
  have hkept : ∀ s ∈ cleanSegments (startsWith ['/'] path.toList) (splitOn '/' path.toList),
      IsOrdinary s ∧ '/' ∉ s := fun s hs =>
    ⟨(leaves_of_not_climbs hclimbs).2 s hs, not_mem_of_mem_splitOn (mem_cleanSegments hs)⟩
  have hslash := slash_not_mem_cutSegments fun s hs => (hkept s hs).2
  constructor
  · intro hresult s hs hc piece hpiece
    -- a segment with a backslash is left, so the result is not empty
    have hempty : cutSegments (cleanSegments (startsWith ['/'] path.toList)
        (splitOn '/' path.toList)) ≠ [[]] := by
      intro hcut
      have hmem := eq_of_cutSegments hcut ▸ h.mem_cleanSegments hs hc
      rw [List.mem_singleton.1 hmem] at hc
      cases hc
    rw [names_ofSegments hslash hempty hresult.2] at hresult
    exact hresult.1 piece (List.mem_flatMap.2 ⟨s, h.mem_cleanSegments hs hc, hpiece⟩)
  · intro hpieces
    have hordinary : ∀ piece ∈ cutSegments (cleanSegments (startsWith ['/'] path.toList)
        (splitOn '/' path.toList)), IsOrdinary piece := by
      intro piece hpiece
      obtain ⟨s, hs, hpiece⟩ := List.mem_flatMap.1 hpiece
      by_cases hc : '\\' ∈ s
      · exact hpieces s (mem_cleanSegments hs) hc piece hpiece
      · rw [splitOn_of_not_mem hc, List.mem_singleton] at hpiece
        exact hpiece ▸ (hkept s hs).1
    have hproper : ∀ piece ∈ cutSegments (cleanSegments (startsWith ['/'] path.toList)
        (splitOn '/' path.toList)), piece ≠ [] ∧ '/' ∉ piece :=
      fun piece hpiece => ⟨(hordinary piece hpiece).ne_nil, hslash piece hpiece⟩
    rw [names_of_proper _ hproper]
    exact ⟨hordinary, startsWith_ofSegments hproper⟩

/-- **When the separators make no difference.** Let `path` be a path in which no `..` cancels a
segment with a backslash. It has the same clean form as its spelling with slashes if and only if
cleaning gives what it promises: ordinary segments, behind a root if the path has one in either
spelling. For a path that does not start with a backslash this says that the path has no clean form,
or that its backslashes divide ordinary segments. -/
theorem separators_irrelevant_iff {path : String}
    (hspared : SparesBackslashes (splitOn '/' path.toList)) :
    (clean? path = clean? (withSlashes path) ↔ ∀ text, clean? path = some text →
      (∀ s ∈ names text, IsOrdinary s) ∧
        startsWith ['/'] text.toList = startsWith ['/'] (withSlashes path).toList) ∧
      (path.toList.head? ≠ some '\\' →
        (clean? path = clean? (withSlashes path) ↔ clean? path = none ∨
          ∀ s ∈ splitOn '/' path.toList, '\\' ∈ s →
            ∀ piece ∈ splitOn '\\' s, IsOrdinary piece)) := by
  have hresult : clean? path = clean? (withSlashes path) ↔ ∀ text, clean? path = some text →
      (∀ s ∈ names text, IsOrdinary s) ∧
        startsWith ['/'] text.toList = startsWith ['/'] (withSlashes path).toList := by
    constructor
    · intro hsame text htext
      obtain ⟨hstart, hordinary, -⟩ :=
        clean?_spec (backslash_not_mem_withSlashes path) (hsame ▸ htext)
      exact ⟨hordinary, hstart⟩
    · intro hpromise
      cases htext : clean? path with
      | none => exact (clean?_withSlashes_eq_none hspared htext).symm
      | some text =>
        obtain ⟨hordinary, hstart⟩ := hpromise text htext
        rw [← clean?_eq_clean?_withSlashes hspared htext hstart,
          clean?_eq_self (backslash_not_mem_clean? htext) hordinary]
  refine ⟨hresult, fun hhead => ?_⟩
  rw [hresult, startsWith_withSlashes hhead]
  cases htext : clean? path with
  | none => simp
  | some text => simpa using names_iff_pieces hspared htext

/-- Backslashes that divide names, alone and behind a `..` that cancels another segment. -/
theorem separators_irrelevant_button :
    clean? "src\\ui\\Button.tsx" = clean? (withSlashes "src\\ui\\Button.tsx") ∧
      SparesBackslashes (splitOn '/' "lib/../src\\ui\\Button.tsx".toList) ∧
      clean? "lib/../src\\ui\\Button.tsx" =
        clean? (withSlashes "lib/../src\\ui\\Button.tsx") := by
  have hslash : '/' ∉ "src\\ui\\Button.tsx".toList := by decide
  have halone := sparesBackslashes_of_not_mem "src\\ui\\Button.tsx" hslash
  have hspared : SparesBackslashes (splitOn '/' "lib/../src\\ui\\Button.tsx".toList) := by decide
  exact ⟨((separators_irrelevant_iff halone).2 (by decide)).2 (.inr (by decide)), hspared,
    ((separators_irrelevant_iff hspared).2 (by decide)).2 (.inr (by decide))⟩

/-- A path with the clean form `text` although its spelling with slashes has another one or none. -/
def IsMisread (path text : String) (other : Option String) : Prop :=
  clean? path = some text ∧ clean? (withSlashes path) = other ∧ other ≠ some text

instance (path text : String) (other : Option String) : Decidable (IsMisread path text other) :=
  inferInstanceAs (Decidable (_ ∧ _ ∧ _))

/-- Behind backslashes `..` is neither checked nor cancelled, a backslash behind a dot becomes the
root, and `..` cancels more than one name. -/
theorem backslashes_misread :
    IsMisread "..\\escape" "../escape" none ∧ IsMisread "a\\..\\b" "a/../b" (some "b") ∧
      IsMisread "./\\etc" "/etc" (some "etc") ∧ IsMisread "a\\b/.." "" (some "a") := by
  decide

end DeadCode.Path
