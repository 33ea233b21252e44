import DeadCode.Project.Aliases
import DeadCode.Proofs.SegmentStack

/-!
# DeadCode.Proofs.AliasTarget

Targets of wildcard aliases. The target is cleaned when the alias is made, and the rest of an import
is put behind it later. The slash at the end of a target is lost in between and put back where
something is left to put it behind. So that this leads to the same path as the target with the rest
in the place of its star, seen from the base directory, the target must end in a name or in a slash
(`Project.IsOpenEnded`): then the stack of segments that the target leaves is the one from which the
rest goes on (`Path.foldl_splitOn_append`).
-/

namespace DeadCode

open Text

namespace Path

variable {absolute : Bool} {path rest : String} {s last : List Char}
  {init segments : List (List Char)}

/-! ### Texts that go on behind a path -/

/-- What is put behind a path goes on from its last segment. -/
theorem splitOn_append_last {as : List Char} (h : splitOn '/' as = init ++ [last])
    (bs : List Char) : splitOn '/' (as ++ bs) = init ++ splitOn '/' (last ++ bs) := by
  have htext : as = folderText init ++ last := by
    rw [← joinWith_concat, ← h, joinWith_splitOn]
  have hslash : ∀ s ∈ init, '/' ∉ s := fun s hs =>
    not_mem_of_mem_splitOn (h ▸ List.mem_append_left [last] hs)
  rw [htext, List.append_assoc, splitOn_folderText hslash]

theorem startsWith_append {as bs : List Char} (h : bs.head? ≠ some '/') :
    startsWith ['/'] (as ++ bs) = startsWith ['/'] as := by
  cases as with
  | nil =>
    cases bs with
    | nil => rfl
    | cons c cs =>
      have hc : '/' ≠ c := fun heq => h (heq ▸ rfl)
      rw [List.nil_append, startsWith_slash_cons, decide_eq_false hc]
      rfl
  | cons c cs => rw [List.cons_append, startsWith_slash_cons, startsWith_slash_cons]

/-- A path ends in a slash, or is empty, when its last segment is empty. -/
theorem last_eq_nil_iff (h : splitOn '/' path.toList = init ++ [last]) :
    last = [] ↔ path = "" ∨ path.toList.getLast? = some '/' := by
  have htext : path.toList = folderText init ++ last := by
    rw [← joinWith_concat, ← h, joinWith_splitOn]
  constructor
  · intro hlast
    have hfolder := isFolder_folderText false init
    rw [hlast, List.append_nil] at htext
    rwa [rootText, if_neg Bool.false_ne_true, List.nil_append, ← htext, String.ofList_toList]
      at hfolder
  · intro hend
    by_contra hne
    rcases hend with hempty | hslash
    · rw [hempty] at htext
      exact hne (List.append_eq_nil_iff.1 htext.symm).2
    · rw [htext, List.getLast?_append_of_ne_nil _ hne] at hslash
      have hmem : last ∈ splitOn '/' path.toList := h ▸ List.mem_append_right init (by simp)
      exact not_mem_of_mem_splitOn hmem (List.mem_of_getLast? hslash)

/-- The stack of a longer path goes on from that of the segments before the last one. -/
theorem foldl_splitOn_append (h : splitOn '/' path.toList = init ++ [last]) (rest : String) :
    (splitOn '/' (path ++ rest).toList).foldl (pushSegment absolute) [] =
      (splitOn '/' (last ++ rest.toList)).foldl (pushSegment absolute)
        (init.foldl (pushSegment absolute) []) := by
  rw [String.toList_append, splitOn_append_last h, List.foldl_append]

/-- A cleaned path behind which another text can be put: when the path had an empty last segment, a
slash is put behind what is left. -/
def reopen (last : List Char) (joined : String) : String :=
  if last.isEmpty && !joined.isEmpty then joined ++ "/" else joined

theorem reopen_of_ne_nil (h : last ≠ []) (joined : String) : reopen last joined = joined := by
  rw [reopen, List.isEmpty_eq_false_iff.2 h, Bool.false_and, if_neg Bool.false_ne_true]

theorem reopen_nil {joined : String} (h : joined ≠ "") : reopen [] joined = joined ++ "/" := by
  rw [reopen, if_pos (by simpa using h)]

theorem startsWith_reopen (last : List Char) (joined : String) :
    startsWith ['/'] (reopen last joined).toList = startsWith ['/'] joined.toList := by
  rw [reopen]
  split
  · next hslash =>
    have hne : joined.toList ≠ [] := by
      rw [Bool.and_eq_true] at hslash
      simpa using hslash.2
    obtain ⟨c, cs, hcs⟩ := List.exists_cons_of_ne_nil hne
    rw [String.toList_append, hcs, List.cons_append, startsWith_slash_cons, startsWith_slash_cons]
  · rfl

section Reopen

variable {joined : String} (hpath : '\\' ∉ path.toList)
  (hsplit : splitOn '/' path.toList = init ++ [last]) (hlast : last ≠ ['.'] ∧ last ≠ ['.', '.'])
  (hjoined : clean? path = some joined)
include hpath hsplit hlast hjoined

/-- The segments before the last one are names, and the last one is put behind them unless it is
empty. -/
theorem kept_of_clean? :
    let kept := cleanSegments (startsWith ['/'] path.toList) init
    (∀ s ∈ kept, IsName s) ∧
      (last = [] ∧ joined = ofSegments (startsWith ['/'] path.toList) kept ∨
        IsName last ∧ joined = ofSegments (startsWith ['/'] path.toList) (kept ++ [last])) := by
  intro kept
  obtain ⟨all, hleaves, rfl⟩ := (clean?_eq_some_iff hpath).1 hjoined
  have hall := hleaves.isName hpath
  rw [hsplit] at hleaves
  have hclean := hleaves.eq_cleanSegments
  by_cases hempty : last = []
  · rw [cleanSegments_append_singleton, hempty, pushSegment_of_isIdle (.inl rfl)] at hclean
    subst hclean
    exact ⟨hall, .inl ⟨hempty, rfl⟩⟩
  · rw [cleanSegments_concat ⟨hempty, hlast.1, hlast.2⟩] at hclean
    subst hclean
    obtain ⟨hkept, hname⟩ := List.forall_mem_append.1 hall
    exact ⟨hkept, .inr ⟨hname last List.mem_cons_self, rfl⟩⟩

/-- A cleaned target with a text behind it has the cleaned segments of the target, and the text goes
on with the last one. -/
theorem splitOn_reopen (rest : String) :
    ∃ before, (∀ s ∈ before, s = []) ∧ splitOn '/' (reopen last joined ++ rest).toList =
      before ++ cleanSegments (startsWith ['/'] path.toList) init ++
        splitOn '/' (last ++ rest.toList) := by
  obtain ⟨hkept, hcases⟩ := kept_of_clean? hpath hsplit hlast hjoined
  generalize cleanSegments (startsWith ['/'] path.toList) init = kept at hkept hcases ⊢
  have hslash : ∀ s ∈ kept, '/' ∉ s := fun s hs => (hkept s hs).noSlash
  rcases hcases with ⟨rfl, hopen⟩ | ⟨hname, hopen⟩
  · by_cases hempty : joined = ""
    · have hnil : kept = names "" := by
        rw [← hempty, hopen, names_of_proper _ fun s hs => ⟨(hkept s hs).ne_nil, hslash s hs⟩]
      rw [hnil, hempty]
      exact ⟨[], by simp, rfl⟩
    · obtain ⟨before, hbefore, htext⟩ := splitOn_ofSegments (startsWith ['/'] path.toList) hslash
      have hslashed : (joined ++ "/" ++ rest).toList = joined.toList ++ '/' :: rest.toList := by
        simp
      rw [reopen_nil hempty, hslashed, splitOn_append_cons, hopen, htext]
      exact ⟨before, hbefore, rfl⟩
  · have hslashes : ∀ s ∈ kept ++ [last], '/' ∉ s :=
      List.forall_mem_append.2 ⟨hslash, by simpa using hname.noSlash⟩
    obtain ⟨before, hbefore, htext⟩ := splitOn_ofSegments (startsWith ['/'] path.toList) hslashes
    rw [← List.append_assoc, ← hopen] at htext
    rw [reopen_of_ne_nil hname.ne_nil, String.toList_append, splitOn_append_last htext]
    exact ⟨before, hbefore, rfl⟩

/-- What is put behind the reopened path leads where it leads behind the path itself. -/
theorem clean?_reopen_append (hrest : rest.toList.head? ≠ some '/') :
    clean? (reopen last joined ++ rest) = clean? (path ++ rest) := by
  obtain ⟨before, hbefore, htext⟩ := splitOn_reopen hpath hsplit hlast hjoined rest
  obtain ⟨hkept, -⟩ := kept_of_clean? hpath hsplit hlast hjoined
  have hstart : startsWith ['/'] (reopen last joined ++ rest).toList =
      startsWith ['/'] path.toList := by
    rw [String.toList_append, startsWith_append hrest, startsWith_reopen,
      (clean?_spec hpath hjoined).1]
  refine clean?_congr ?_ ?_
  · rw [hstart, String.toList_append, startsWith_append hrest]
  · rw [hstart, cleanSegments, cleanSegments, foldl_splitOn_append hsplit, htext,
      List.foldl_append, List.foldl_append,
      foldl_pushSegment_of_isIdle fun s hs => .inl (hbefore s hs),
      foldl_pushSegment_ordinary fun s hs => (hkept s hs).toIsOrdinary, cleanSegments,
      List.reverse_reverse, List.append_nil]

end Reopen

/-- A path that climbs above its start does so whatever is put behind it, if its last segment is not
changed into something else by that. -/
theorem clean?_append_eq_none (hsplit : splitOn '/' path.toList = init ++ [last])
    (hlast : last ≠ ['.', '.']) (hnone : clean? path = none)
    (hrest : rest.toList.head? ≠ some '/') : clean? (path ++ rest) = none := by
  rw [clean?_eq_withSlashes] at hnone ⊢
  obtain ⟨hrelative, hclimbs⟩ : startsWith ['/'] path.toList = false ∧
      Climbs (splitOn '/' path.toList) := by simpa using hnone
  rw [hsplit, climbs_concat_of_ne hlast] at hclimbs
  rw [if_pos]
  rw [String.toList_append, startsWith_append hrest, splitOn_append_last hsplit]
  exact ⟨hrelative, hclimbs.append_right _⟩

/-- The text that `join?` cleans. -/
def joinText (base rel : String) : String :=
  if base.isEmpty then rel else base ++ "/" ++ rel

/-- Joining is cleaning of the two texts with a slash between them. -/
theorem join?_eq_clean? (base rel : String) : join? base rel = clean? (joinText base rel) := by
  rw [join?, joinText]
  split <;> rfl

theorem joinText_append (base rel rest : String) :
    joinText base (rel ++ rest) = joinText base rel ++ rest := by
  rw [joinText, joinText]
  split
  · rfl
  · exact (String.append_assoc ..).symm

/-- The last segment of a joined path is that of the second path. -/
theorem splitOn_joinText {rel : String} (h : splitOn '/' rel.toList = init ++ [last])
    (base : String) : ∃ dirs, splitOn '/' (joinText base rel).toList = dirs ++ [last] := by
  rw [joinText]
  split
  · exact ⟨init, h⟩
  · have htext : (base ++ "/" ++ rel).toList = base.toList ++ '/' :: rel.toList := by simp
    rw [htext, splitOn_append_cons, h, ← List.append_assoc]
    exact ⟨_, rfl⟩

theorem backslash_not_mem_joinText {base rel : String} (hbase : '\\' ∉ base.toList)
    (hrel : '\\' ∉ rel.toList) : '\\' ∉ (joinText base rel).toList := by
  rw [joinText]
  split
  · exact hrel
  · simp [hbase, hrel]

end Path

namespace Project

open DeadCode.Path

variable {base target rest : String} {init : List (List Char)} {last : List Char}

/-! ### Targets -/

/-- A target behind which the rest of an import can be put: it has no backslashes, and its last
segment is neither `.` nor `..`. -/
structure IsOpenEnded (target : String) : Prop where
  noBackslash : '\\' ∉ target.toList
  last : ∀ s ∈ (segments target).getLast?, s ≠ "." ∧ s ≠ ".."

instance (target : String) : Decidable (IsOpenEnded target) :=
  decidable_of_iff ('\\' ∉ target.toList ∧ ∀ s ∈ (segments target).getLast?, s ≠ "." ∧ s ≠ "..")
    ⟨fun h => ⟨h.1, h.2⟩, fun h => ⟨h.noBackslash, h.last⟩⟩

/-- The last segment of an open target is neither `.` nor `..`. -/
theorem IsOpenEnded.exists_last (h : IsOpenEnded target) :
    ∃ init last, splitOn '/' target.toList = init ++ [last] ∧
      last ≠ ['.'] ∧ last ≠ ['.', '.'] := by
  obtain ⟨init, last, hsplit⟩ :=
    (List.eq_nil_or_concat' (splitOn '/' target.toList)).resolve_left (splitOn_ne_nil '/' _)
  have hmem : String.ofList last ∈ (segments target).getLast? := by
    rw [segments, hsplit]
    simp
  obtain ⟨hdot, hup⟩ := h.last _ hmem
  refine ⟨init, last, hsplit, fun heq => hdot ?_, fun heq => hup ?_⟩
  · rw [heq]
  · rw [heq]

/-- The target of an alias is what is left of it, reopened. -/
theorem aliasTarget?_eq (hsplit : splitOn '/' target.toList = init ++ [last]) (base : String) :
    aliasTarget? base target = (clean? (joinText base target)).map (reopen last) := by
  have hend : (target.isEmpty || target.toList.getLast? == some '/') = last.isEmpty := by
    rw [Bool.eq_iff_iff, Bool.or_eq_true, String.isEmpty_iff, beq_iff_eq, List.isEmpty_iff]
    exact (last_eq_nil_iff hsplit).symm
  rw [aliasTarget?, join?_eq_clean?, hend]
  rfl

/-- Wherever the target leads, the rest leads on from there. -/
theorem bind_aliasTarget? (hbase : '\\' ∉ base.toList) (htarget : IsOpenEnded target)
    (hrest : rest.toList.head? ≠ some '/') :
    (aliasTarget? base target).bind (fun a => clean? (a ++ rest)) =
      join? base (target ++ rest) := by
  obtain ⟨init, last, hsplit, hlast⟩ := htarget.exists_last
  obtain ⟨dirs, hdirs⟩ := splitOn_joinText hsplit base
  rw [aliasTarget?_eq hsplit, join?_eq_clean?, joinText_append]
  cases hclean : clean? (joinText base target) with
  | none => exact (clean?_append_eq_none hdirs hlast.2 hclean hrest).symm
  | some joined =>
    exact clean?_reopen_append (backslash_not_mem_joinText hbase htarget.noBackslash) hdirs hlast
      hclean hrest

/-- The paths that a wildcard alias gives for an import that goes on behind its beginning. -/
theorem candidates_of_wildcard (beginning : String) (targets : List String) (hrest : rest ≠ "") :
    (Alias.mk beginning targets false).candidates (beginning ++ rest) =
      targets.filterMap fun target => clean? (target ++ rest) := by
  have hrest? : (Alias.mk beginning targets false).rest? (beginning ++ rest) = some rest := by
    have hdrop : dropPrefix? beginning.toList (beginning ++ rest).toList = some rest.toList :=
      dropPrefix?_eq_some_iff.2 String.toList_append
    rw [Alias.rest?, if_neg Bool.false_ne_true, hdrop, Option.map_some, String.ofList_toList]
  have hempty : rest.isEmpty = false := by simpa using hrest
  simp only [Alias.candidates, hrest?, hempty]
  rfl

/-- **Substitution in targets commutes with joining.** Let `base` be empty or in clean form, and
`rest` a text that does not start with a slash. For every open-ended target, what the alias puts
behind the cleaned target is the target with the rest behind it, seen from `base`; and when the
target leads out of the project, so does this path. Hence the paths that a wildcard alias gives for
an import are those of its targets, with the rest of the import in the place of the star. -/
theorem alias_substitution_joins {base rest : String} (hbase : base = "" ∨ clean? base = some base)
    (hrest : rest.toList.head? ≠ some '/') :
    (∀ target, IsOpenEnded target →
      (∀ a, aliasTarget? base target = some a → clean? (a ++ rest) = join? base (target ++ rest)) ∧
        (aliasTarget? base target = none → join? base (target ++ rest) = none)) ∧
      ∀ (beginning : String) (targets : List String), rest ≠ "" →
        (∀ target ∈ targets, IsOpenEnded target) →
        (Alias.mk beginning (targets.filterMap (aliasTarget? base)) false).candidates
            (beginning ++ rest) = targets.filterMap fun target => join? base (target ++ rest) := by
  have hbackslash : '\\' ∉ base.toList := by
    rcases hbase with hempty | hclean
    · rw [hempty]
      exact List.not_mem_nil
    · exact backslash_not_mem_clean? hclean
  refine ⟨fun target htarget => ?_, fun beginning targets hne htargets => ?_⟩
  · have hbind := bind_aliasTarget? hbackslash htarget hrest
    refine ⟨fun a ha => ?_, fun hnone => ?_⟩
    · rw [← hbind, ha, Option.bind_some]
    · rw [← hbind, hnone, Option.bind_none]
  · rw [candidates_of_wildcard _ _ hne, List.filterMap_filterMap]
    exact List.filterMap_congr fun target htarget =>
      bind_aliasTarget? hbackslash (htargets target htarget) hrest

/-- A target that climbs and comes down again, with an import that climbs once more. -/
theorem alias_substitution_shared :
    aliasTarget? "packages/app" "../shared/./src//" = some "packages/shared/src/" ∧
      clean? ("packages/shared/src/" ++ "../ui/Button") = some "packages/shared/ui/Button" ∧
      join? "packages/app" ("../shared/./src//" ++ "../ui/Button") =
        some "packages/shared/ui/Button" := by
  have htarget : aliasTarget? "packages/app" "../shared/./src//" = some "packages/shared/src/" := by
    decide
  have hclean : clean? ("packages/shared/src/" ++ "../ui/Button") =
      some "packages/shared/ui/Button" := by decide
  have hbase : clean? "packages/app" = some "packages/app" := by decide
  have hrest : "../ui/Button".toList.head? ≠ some '/' := by decide
  have hjoin := ((alias_substitution_joins (.inr hbase) hrest).1 "../shared/./src//"
    (by decide)).1 "packages/shared/src/" htarget
  exact ⟨htarget, hclean, hjoin ▸ hclean⟩

end Project

end DeadCode
