import DeadCode.Path.Clean
import DeadCode.Proofs.Text

/-!
# DeadCode.Proofs.CleanPath

Paths as lists of segments. The cleaning of a path is a stack of segments: an ordinary segment is
put on the stack, and `..` takes the last one off again. What is left of a path is ordinary unless
the path climbs above its start (`Path.isOrdinary_of_mem_cleanSegments`), and a relative path in
which every `..` takes a segment off is cleaned to the segments that stay (`Path.clean?_joinWith`).
-/

namespace DeadCode

/-! ### Splitting and joining -/

namespace Text

variable {sep : Char}

/-- Splitting is the function of the standard library, whose laws hold here too. -/
theorem splitWhere_eq_splitOnP (p : Char → Bool) (cs : List Char) :
    splitWhere p cs = cs.splitOnP p := by
  induction cs with
  | nil => rw [splitWhere, List.splitOnP_nil]
  | cons c cs ih =>
    rw [splitWhere, ih, List.splitOnP_cons_eq_if_modifyHead]
    split
    · rfl
    · obtain ⟨piece, pieces, h⟩ := List.exists_cons_of_ne_nil (List.splitOnP_ne_nil p cs)
      rw [h, List.modifyHead_cons]

theorem splitOn_eq (sep : Char) (cs : List Char) : splitOn sep cs = cs.splitOn sep := by
  rw [splitOn, splitWhere_eq_splitOnP, List.splitOn_eq_splitOnP]

theorem joinWith_eq_intercalate (sep : List Char) (pieces : List (List Char)) :
    joinWith sep pieces = sep.intercalate pieces := by
  induction pieces with
  | nil => rfl
  | cons piece pieces ih =>
    cases pieces with
    | nil => rw [joinWith, List.intercalate_singleton]
    | cons next pieces => rw [joinWith, ih, List.intercalate_cons_cons]; simp

@[simp]
theorem joinWith_singleton (sep piece : List Char) : joinWith sep [piece] = piece := rfl

theorem joinWith_cons (sep piece : List Char) (pieces : List (List Char)) :
    joinWith sep (piece :: pieces) = piece ++ pieces.flatMap (sep ++ ·) := by
  induction pieces generalizing piece with
  | nil => simp
  | cons next pieces ih =>
    rw [joinWith, ih, List.flatMap_cons, List.append_assoc, List.append_assoc]
    simp

/-- Joining undoes splitting. -/
@[simp]
theorem joinWith_splitOn (sep : Char) (cs : List Char) : joinWith [sep] (splitOn sep cs) = cs := by
  rw [splitOn_eq, joinWith_eq_intercalate, List.intercalate_splitOn]

/-- Splitting undoes joining where the separator stands in no piece. -/
theorem splitOn_joinWith {pieces : List (List Char)} (h : ∀ piece ∈ pieces, sep ∉ piece)
    (hne : pieces ≠ []) : splitOn sep (joinWith [sep] pieces) = pieces := by
  rw [splitOn_eq, joinWith_eq_intercalate, List.splitOn_intercalate sep h hne]

/-- A separator divides the pieces before it from those behind it. -/
theorem splitOn_append_cons (sep : Char) (as bs : List Char) :
    splitOn sep (as ++ sep :: bs) = splitOn sep as ++ splitOn sep bs := by
  simp only [splitOn, splitWhere_eq_splitOnP]
  exact List.splitOnP_append_cons as bs (beq_self_eq_true sep)

theorem splitOn_of_not_mem {cs : List Char} (h : sep ∉ cs) : splitOn sep cs = [cs] := by
  rw [splitOn, splitWhere_eq_splitOnP, List.splitOnP_eq_singleton]
  rintro c hc
  exact beq_eq_false_iff_ne.2 fun e => h (e ▸ hc)

theorem splitOn_ne_nil (sep : Char) (cs : List Char) : splitOn sep cs ≠ [] := by
  rw [splitOn, splitWhere_eq_splitOnP]
  exact List.splitOnP_ne_nil _ cs

/-- The separator stands in none of the pieces. -/
theorem not_mem_of_mem_splitOn {cs piece : List Char} (h : piece ∈ splitOn sep cs) :
    sep ∉ piece := by
  -- the text up to its first separator is one piece, and the others are those of the rest
  induction hn : cs.length using Nat.strongRecOn generalizing cs with
  | _ n ih =>
    by_cases hsep : sep ∈ cs
    · obtain ⟨as, bs, rfl, has⟩ := List.eq_append_cons_of_mem hsep
      rw [splitOn_append_cons, splitOn_of_not_mem has, List.singleton_append, List.mem_cons] at h
      rcases h with rfl | h
      · exact has
      · exact ih bs.length (by simp at hn; omega) h rfl
    · rw [splitOn_of_not_mem hsep, List.mem_singleton] at h
      exact h ▸ hsep

theorem mem_joinWith {pieces : List (List Char)} {c : Char} (h : c ∈ joinWith [sep] pieces) :
    c = sep ∨ ∃ piece ∈ pieces, c ∈ piece := by
  induction pieces with
  | nil => exact absurd h List.not_mem_nil
  | cons piece pieces ih =>
    cases pieces with
    | nil => exact .inr ⟨piece, by simp, h⟩
    | cons next pieces =>
      simp only [joinWith, List.mem_append, List.mem_singleton] at h
      rcases h with (h | h) | h
      · exact .inr ⟨piece, by simp, h⟩
      · exact .inl h
      · refine (ih h).imp_right fun ⟨s, hs, hc⟩ => ⟨s, by simp_all, hc⟩

theorem mem_joinWith_of_mem {pieces : List (List Char)} {piece : List Char} {c : Char}
    (hpiece : piece ∈ pieces) (hc : c ∈ piece) : c ∈ joinWith [sep] pieces := by
  induction pieces with
  | nil => exact absurd hpiece List.not_mem_nil
  | cons first pieces ih =>
    cases pieces with
    | nil => exact List.mem_singleton.1 hpiece ▸ hc
    | cons next pieces =>
      simp only [joinWith, List.mem_append]
      rcases List.mem_cons.1 hpiece with rfl | hpiece
      · exact .inl (.inl hc)
      · exact .inr (ih hpiece)

theorem mem_of_mem_splitOn {cs piece : List Char} {c : Char} (h : piece ∈ splitOn sep cs)
    (hc : c ∈ piece) : c ∈ cs := by
  rw [← joinWith_splitOn sep cs]
  exact mem_joinWith_of_mem h hc

/-- Joined lists of pieces are joined by one more separator. -/
theorem joinWith_append {as bs : List (List Char)} (ha : as ≠ []) (hb : bs ≠ []) :
    joinWith [sep] (as ++ bs) = joinWith [sep] as ++ sep :: joinWith [sep] bs := by
  induction as with
  | nil => exact absurd rfl ha
  | cons a as ih =>
    simp only [joinWith_eq_intercalate] at ih ⊢
    by_cases has : as = []
    · subst has
      rw [List.singleton_append, List.intercalate_cons_of_ne_nil hb, List.intercalate_singleton]
      simp
    · rw [List.cons_append, List.intercalate_cons_of_ne_nil (by simp [has]), ih has,
        List.intercalate_cons_of_ne_nil has]
      simp

theorem cutLast_of_not_mem {cs : List Char} (h : sep ∉ cs) : cutLast sep cs = none := by
  induction cs with
  | nil => rfl
  | cons c cs ih =>
    obtain ⟨hc, hcs⟩ := List.ne_and_not_mem_of_not_mem_cons h
    rw [cutLast, ih hcs, if_neg (Ne.symm hc)]

/-- The last separator is the one with none behind it. -/
theorem cutLast_append_cons {as bs : List Char} (h : sep ∉ bs) :
    cutLast sep (as ++ sep :: bs) = some (as, bs) := by
  induction as with
  | nil => rw [List.nil_append, cutLast, cutLast_of_not_mem h, if_pos rfl]
  | cons a as ih => rw [List.cons_append, cutLast, ih]

/-- A text is cut at the last place of a character that stands in it. -/
theorem exists_last_of_mem {cs : List Char} (h : sep ∈ cs) :
    ∃ as bs, cs = as ++ sep :: bs ∧ sep ∉ bs := by
  obtain ⟨as, bs, hreverse, has⟩ := List.eq_append_cons_of_mem (List.mem_reverse.2 h)
  refine ⟨bs.reverse, as.reverse, ?_, by simpa using has⟩
  rw [← List.reverse_reverse cs, hreverse]
  simp

end Text

/-! ### The stack of segments -/

namespace Path

open Text

/-- A segment that is put on the stack. -/
structure IsOrdinary (segment : List Char) : Prop where
  ne_nil : segment ≠ []
  ne_dot : segment ≠ ['.']
  ne_up : segment ≠ ['.', '.']

/-- A segment that cleaning leaves as it is. -/
structure IsName (segment : List Char) : Prop extends IsOrdinary segment where
  noSlash : '/' ∉ segment
  noBackslash : '\\' ∉ segment

variable {absolute : Bool} {stack : List (List Char)}

theorem pushSegment_of_ordinary {segment : List Char} (h : IsOrdinary segment) :
    pushSegment absolute stack segment = segment :: stack := by
  simp [pushSegment, h.ne_nil, h.ne_dot, h.ne_up]

/-- A `..` takes an ordinary segment off the stack. -/
theorem pushSegment_up {top : List Char} (h : IsOrdinary top) :
    pushSegment absolute (top :: stack) ['.', '.'] = stack := by
  have htop : (top == ['.', '.']) = false := beq_eq_false_iff_ne.2 h.ne_up
  simp [pushSegment, htop]

/-- Ordinary segments pile up on the stack. -/
theorem foldl_pushSegment_ordinary {segments : List (List Char)}
    (h : ∀ segment ∈ segments, IsOrdinary segment) (stack : List (List Char)) :
    segments.foldl (pushSegment absolute) stack = segments.reverse ++ stack := by
  induction segments generalizing stack with
  | nil => rfl
  | cons segment segments ih =>
    obtain ⟨hsegment, hsegments⟩ := List.forall_mem_cons.1 h
    rw [List.foldl_cons, pushSegment_of_ordinary hsegment, ih hsegments]
    simp

/-- One `..` for each of the segments on top of the stack takes all of them off. -/
theorem foldl_pushSegment_up {up : List (List Char)} (h : ∀ segment ∈ up, IsOrdinary segment)
    (stack : List (List Char)) :
    (List.replicate up.length ['.', '.']).foldl (pushSegment absolute) (up ++ stack) = stack := by
  induction up with
  | nil => rfl
  | cons top up ih =>
    obtain ⟨htop, hup⟩ := List.forall_mem_cons.1 h
    rw [List.length_cons, List.replicate_succ, List.foldl_cons, List.cons_append,
      pushSegment_up htop, ih hup]

/-- A stack in which every `..` lies below the ordinary segments. -/
def IsPiled (stack : List (List Char)) : Prop :=
  ∃ downs ups, stack = downs ++ ups ∧ (∀ s ∈ downs, IsOrdinary s) ∧ ∀ s ∈ ups, s = ['.', '.']

/-- One more segment leaves every `..` at the bottom of the stack. -/
theorem IsPiled.pushSegment (h : IsPiled stack) (segment : List Char) :
    IsPiled (pushSegment absolute stack segment) := by
  obtain ⟨downs, ups, rfl, hdowns, hups⟩ := h
  unfold Path.pushSegment
  split
  · exact ⟨downs, ups, rfl, hdowns, hups⟩
  · next hskip =>
    simp only [Bool.or_eq_true, List.isEmpty_iff, beq_iff_eq, not_or] at hskip
    split
    · next hup =>
      rw [beq_iff_eq] at hup
      subst hup
      cases downs with
      | cons down downs =>
        -- an ordinary segment is taken off
        obtain ⟨hdown, hdowns⟩ := List.forall_mem_cons.1 hdowns
        refine ⟨downs, ups, ?_, hdowns, hups⟩
        simp [beq_eq_false_iff_ne.2 hdown.ne_up]
      | nil =>
        cases ups with
        | nil => cases absolute <;> exact ⟨[], _, rfl, by simp, by simp⟩
        | cons up ups =>
          have hup : up = ['.', '.'] := hups up (List.mem_cons_self ..)
          exact ⟨[], ['.', '.'] :: up :: ups, by simp [hup], by simp, by simpa using hups⟩
    · next hup =>
      have hsegment : IsOrdinary segment := ⟨hskip.1, hskip.2, by simpa using hup⟩
      exact ⟨segment :: downs, ups, rfl, List.forall_mem_cons.2 ⟨hsegment, hdowns⟩, hups⟩

/-- The segments on the stack are ordinary or `..`, the latter at its bottom. -/
theorem isPiled_foldl (absolute : Bool) (segments : List (List Char)) :
    IsPiled (segments.foldl (pushSegment absolute) []) :=
  List.foldlRecOn segments (pushSegment absolute) ⟨[], [], rfl, by simp, by simp⟩
    fun _ ih segment _ => ih.pushSegment segment

theorem mem_pushSegment {segment s : List Char} (h : s ∈ pushSegment absolute stack segment) :
    s = segment ∨ s ∈ stack := by
  unfold pushSegment at h
  split at h
  · exact .inr h
  · split at h
    · cases stack with
      | nil => cases absolute <;> simp_all
      | cons top rest =>
        dsimp only at h
        split at h
        · exact List.mem_cons.1 h
        · exact .inr (List.mem_cons_of_mem _ h)
    · exact List.mem_cons.1 h

/-- Cleaning brings no segments that are not in the path. -/
theorem mem_cleanSegments {segments : List (List Char)} {s : List Char}
    (h : s ∈ cleanSegments absolute segments) : s ∈ segments := by
  have hstack : ∀ s ∈ segments.foldl (pushSegment absolute) [], s ∈ segments := by
    refine List.foldlRecOn (motive := fun stack => ∀ s ∈ stack, s ∈ segments) segments
      (pushSegment absolute) (by simp) fun stack ih segment hmem s hs => ?_
    rcases mem_pushSegment hs with rfl | hs
    · exact hmem
    · exact ih s hs
  exact hstack s (List.mem_reverse.1 h)

/-- Cleaning leaves ordinary segments, unless the path climbs above its start. -/
theorem isOrdinary_of_mem_cleanSegments {segments : List (List Char)}
    (hhead : (cleanSegments absolute segments).head? ≠ some ['.', '.']) {s : List Char}
    (h : s ∈ cleanSegments absolute segments) : IsOrdinary s := by
  obtain ⟨downs, ups, hstack, hdowns, hups⟩ := isPiled_foldl absolute segments
  have hclean : cleanSegments absolute segments = ups.reverse ++ downs.reverse := by
    rw [cleanSegments, hstack, List.reverse_append]
  rw [hclean] at hhead h
  -- a `..` that is left would stand first
  have hnone : ups = [] := by
    cases hreverse : ups.reverse with
    | nil => simpa using hreverse
    | cons up rest =>
      have hup : up = ['.', '.'] := hups up (List.mem_reverse.1 (hreverse ▸ List.mem_cons_self ..))
      rw [hreverse, hup] at hhead
      exact absurd rfl hhead
  subst hnone
  exact hdowns s (List.mem_reverse.1 (by simpa using h))

/-! ### Folders -/

/-- Segments with a slash behind each of them. -/
def folderText (segments : List (List Char)) : List Char := segments.flatMap (· ++ ['/'])

@[simp]
theorem folderText_nil : folderText [] = [] := rfl

@[simp]
theorem folderText_cons (segment : List Char) (segments : List (List Char)) :
    folderText (segment :: segments) = segment ++ '/' :: folderText segments := by
  simp [folderText]

theorem joinWith_concat (segments : List (List Char)) (name : List Char) :
    joinWith ['/'] (segments ++ [name]) = folderText segments ++ name := by
  induction segments with
  | nil => rfl
  | cons segment segments ih =>
    rw [List.cons_append, joinWith_eq_intercalate,
      List.intercalate_cons_of_ne_nil (by simp), ← joinWith_eq_intercalate, ih]
    simp

/-- A folder before a text adds its segments to those of the text. -/
theorem splitOn_folderText {segments : List (List Char)} (h : ∀ s ∈ segments, '/' ∉ s)
    (rest : List Char) :
    splitOn '/' (folderText segments ++ rest) = segments ++ splitOn '/' rest := by
  induction segments with
  | nil => rfl
  | cons segment segments ih =>
    obtain ⟨hsegment, hsegments⟩ := List.forall_mem_cons.1 h
    rw [folderText_cons, List.append_assoc, List.cons_append, splitOn_append_cons,
      splitOn_of_not_mem hsegment, ih hsegments, List.singleton_append, List.cons_append]

/-! ### Clean forms -/

theorem backslash_not_mem_withSlashes (path : String) : '\\' ∉ (withSlashes path).toList := by
  rw [withSlashes, String.toList_ofList]
  intro hc
  obtain ⟨c, -, hc⟩ := List.mem_map.1 hc
  split at hc
  · exact absurd hc (by decide)
  · next hne => exact hne hc

theorem withSlashes_eq_self {path : String} (h : '\\' ∉ path.toList) : withSlashes path = path := by
  have hmap : path.toList.map (fun c => if c = '\\' then '/' else c) = path.toList.map id :=
    List.map_congr_left fun c hc => if_neg fun (e : c = '\\') => h (e ▸ hc)
  rw [withSlashes, hmap, List.map_id, String.ofList_toList]

/-- A text that starts with a proper segment does not start with a slash. -/
theorem startsWith_joinWith {segments : List (List Char)}
    (h : ∀ s ∈ segments, s ≠ [] ∧ '/' ∉ s) :
    startsWith ['/'] (joinWith ['/'] segments) = false := by
  cases segments with
  | nil => rfl
  | cons segment segments =>
    obtain ⟨hne, hslash⟩ := h segment (List.mem_cons_self ..)
    obtain ⟨c, cs, rfl⟩ := List.exists_cons_of_ne_nil hne
    have hc : '/' ≠ c := fun e => hslash (e ▸ List.mem_cons_self ..)
    cases segments <;> simp [joinWith, startsWith, dropPrefix?, hc]

/-- A relative path whose `..` all cancel is cleaned to the segments that are left. -/
theorem clean?_joinWith {segments kept : List (List Char)} (hne : segments ≠ [])
    (hproper : ∀ s ∈ segments, s ≠ [] ∧ '/' ∉ s)
    (hkept : segments.foldl (pushSegment false) [] = kept.reverse)
    (hname : ∀ s ∈ kept, IsName s) :
    clean? (.ofList (joinWith ['/'] segments)) = some (.ofList (joinWith ['/'] kept)) := by
  have hhead : (kept.head? == some ['.', '.']) = false := by
    refine beq_eq_false_iff_ne.2 fun h => ?_
    exact (hname _ (List.mem_of_head? h)).ne_up rfl
  have hslashes : '\\' ∉ (String.ofList (joinWith ['/'] kept)).toList := by
    rw [String.toList_ofList]
    intro h
    rcases mem_joinWith h with h | ⟨s, hs, hc⟩
    · exact absurd h (by decide)
    · exact (hname s hs).noBackslash hc
  have hsplit : splitOn '/' (joinWith ['/'] segments) = segments :=
    splitOn_joinWith (fun s hs => (hproper s hs).2) hne
  simp only [clean?, String.toList_ofList, startsWith_joinWith hproper, hsplit, cleanSegments,
    hkept, List.reverse_reverse, hhead]
  simp [withSlashes_eq_self hslashes]

/-- Joining a directory and a path is cleaning of their segments together. -/
theorem join?_joinWith {dirs segments : List (List Char)} (hdirs : ∀ s ∈ dirs, s ≠ [])
    (hne : segments ≠ []) :
    join? (.ofList (joinWith ['/'] dirs)) (.ofList (joinWith ['/'] segments)) =
      clean? (.ofList (joinWith ['/'] (dirs ++ segments))) := by
  by_cases h : dirs = []
  · subst h
    rfl
  · have hbase : joinWith ['/'] dirs ≠ [] := by
      obtain ⟨dir, rest, rfl⟩ := List.exists_cons_of_ne_nil h
      obtain ⟨c, cs, rfl⟩ := List.exists_cons_of_ne_nil (hdirs dir (List.mem_cons_self ..))
      cases rest <;> simp [joinWith]
    have hempty : (String.ofList (joinWith ['/'] dirs)).isEmpty = false := by
      simpa [← String.toList_eq_nil_iff] using hbase
    have htext : String.ofList (joinWith ['/'] dirs) ++ "/" ++
        String.ofList (joinWith ['/'] segments) =
          .ofList (joinWith ['/'] (dirs ++ segments)) := by
      rw [joinWith_append h hne]
      apply String.toList_inj.1
      simp
    rw [join?, hempty, htext]
    simp

/-- The directory part is what stands before the last segment. -/
theorem parent_joinWith {dirs : List (List Char)} {name : List Char} (hname : '/' ∉ name) :
    parent (.ofList (joinWith ['/'] (dirs ++ [name]))) = .ofList (joinWith ['/'] dirs) := by
  rw [parent, String.toList_ofList]
  by_cases hdirs : dirs = []
  · subst hdirs
    rw [List.nil_append, joinWith_singleton, cutLast_of_not_mem hname]
    rfl
  · rw [joinWith_append hdirs (by simp), joinWith_singleton, cutLast_append_cons hname]

end Path

end DeadCode
