import DeadCode.Proofs.ManifestEntry
import Mathlib.Data.List.Infix
import Mathlib.Logic.Relation

/-!
# DeadCode.Proofs.SegmentStack

Cleaning as cancellation. What a path means is said here without a stack: `..` cancels the ordinary
segment before it (`Path.Cancels`), in any order, and a path climbs above its start when some
beginning of it has more `..` than ordinary segments (`Path.Climbs`). Both are tied to the stack of
`Path.pushSegment` by what one segment does to it:

* a cancellation does not change the stack that the segments lead to, and the segments on the stack
  are reached by cancellations (`Path.cancels_cleanSegments`), so they are the only ones that can be
  left;
* the stack holds as many segments as there are more ordinary ones than `..`, until it is empty and
  another `..` comes (`Path.length_add_ups`); this one stays at the bottom for good.
-/

namespace DeadCode.Path

open Text Relation

variable {absolute : Bool} {s : List Char} {stack segments xs ys zs : List (List Char)}

/-! ### Kinds of segments -/

/-- A segment that says nothing. -/
def IsIdle (s : List Char) : Prop := s = [] ∨ s = ['.']

instance (s : List Char) : Decidable (IsOrdinary s) :=
  decidable_of_iff (s ≠ [] ∧ s ≠ ['.'] ∧ s ≠ ['.', '.'])
    ⟨fun h => ⟨h.1, h.2.1, h.2.2⟩, fun h => ⟨h.ne_nil, h.ne_dot, h.ne_up⟩⟩

/-- A segment says nothing, climbs or descends. -/
theorem isIdle_or (s : List Char) : IsIdle s ∨ s = ['.', '.'] ∨ IsOrdinary s := by
  by_cases hidle : IsIdle s
  · exact .inl hidle
  · by_cases hup : s = ['.', '.']
    · exact .inr (.inl hup)
    · obtain ⟨hempty, hdot⟩ := not_or.1 hidle
      exact .inr (.inr ⟨hempty, hdot, hup⟩)

theorem IsIdle.not_isOrdinary (h : IsIdle s) : ¬ IsOrdinary s := by
  intro hs
  rcases h with hempty | hdot
  · exact hs.ne_nil hempty
  · exact hs.ne_dot hdot

theorem IsIdle.ne_up (h : IsIdle s) : s ≠ ['.', '.'] := by
  intro hup
  subst hup
  exact absurd h (by simp [IsIdle])

/-- What one segment does to the stack. -/
inductive Pushes (absolute : Bool) : List (List Char) → List Char → List (List Char) → Prop
  | idle {s : List Char} (h : IsIdle s) (stack : List (List Char)) : Pushes absolute stack s stack
  | down {s : List Char} (h : IsOrdinary s) (stack : List (List Char)) :
      Pushes absolute stack s (s :: stack)
  | pop {top : List Char} (h : top ≠ ['.', '.']) (rest : List (List Char)) :
      Pushes absolute (top :: rest) ['.', '.'] rest
  | pile (rest : List (List Char)) :
      Pushes absolute (['.', '.'] :: rest) ['.', '.'] (['.', '.'] :: ['.', '.'] :: rest)
  | root (h : absolute = true) : Pushes absolute [] ['.', '.'] []
  | climb (h : absolute = false) : Pushes absolute [] ['.', '.'] [['.', '.']]

theorem pushSegment_of_isIdle (h : IsIdle s) : pushSegment absolute stack s = stack := by
  rcases h with hs | hs
  · subst hs; rfl
  · subst hs; rfl

/-- What pushing a segment does, case by case. -/
theorem pushes_pushSegment (absolute : Bool) (stack : List (List Char)) (s : List Char) :
    Pushes absolute stack s (pushSegment absolute stack s) := by
  rcases isIdle_or s with hidle | hup | hs
  · rw [pushSegment_of_isIdle hidle]
    exact .idle hidle stack
  · subst hup
    cases stack with
    | nil =>
      cases absolute with
      | true => exact .root rfl
      | false => exact .climb rfl
    | cons top rest =>
      by_cases htop : top = ['.', '.']
      · subst htop
        exact .pile rest
      · have hpop : pushSegment absolute (top :: rest) ['.', '.'] = rest := by
          simp [pushSegment, htop]
        rw [hpop]
        exact .pop htop rest
  · rw [pushSegment_of_ordinary hs]
    exact .down hs stack

/-- What stands on top of the stack is ordinary, or there is nothing but `..`. -/
theorem isOrdinary_top {top : List Char}
    (h : segments.foldl (pushSegment absolute) [] = top :: stack) (hup : top ≠ ['.', '.']) :
    IsOrdinary top := by
  obtain ⟨downs, ups, hpile, hdowns, hups⟩ := isPiled_foldl absolute segments
  rw [h] at hpile
  cases downs with
  | nil =>
    have hmem : top ∈ ups := by
      rw [← List.nil_append ups, ← hpile]
      exact List.mem_cons_self
    exact absurd (hups top hmem) hup
  | cons down downs =>
    obtain ⟨rfl, -⟩ := List.cons.inj hpile
    exact hdowns top List.mem_cons_self

/-! ### Cancellation -/

/-- One segment or two are taken out of a path: a segment that says nothing, an ordinary segment
with the `..` behind it, or a `..` at an absolute root. -/
inductive Cancels (absolute : Bool) : List (List Char) → List (List Char) → Prop
  | idle {s : List Char} (h : IsIdle s) (before after : List (List Char)) :
      Cancels absolute (before ++ s :: after) (before ++ after)
  | up {s : List Char} (h : IsOrdinary s) (before after : List (List Char)) :
      Cancels absolute (before ++ s :: ['.', '.'] :: after) (before ++ after)
  | root (h : absolute = true) (after : List (List Char)) :
      Cancels absolute (['.', '.'] :: after) after

/-- Cancellation leads from `segments` to `kept`, of which nothing cancels any more. -/
def Leaves (absolute : Bool) (segments kept : List (List Char)) : Prop :=
  ReflTransGen (Cancels absolute) segments kept ∧ ∀ s ∈ kept, IsOrdinary s

/-- What is cancelled makes no difference to the stack. -/
theorem Cancels.foldl_eq (h : Cancels absolute xs ys) :
    xs.foldl (pushSegment absolute) [] = ys.foldl (pushSegment absolute) [] := by
  cases h with
  | idle hs before after =>
    rw [List.foldl_append, List.foldl_cons, pushSegment_of_isIdle hs, List.foldl_append]
  | up hs before after =>
    rw [List.foldl_append, List.foldl_cons, List.foldl_cons, pushSegment_of_ordinary hs,
      pushSegment_up hs, List.foldl_append]
  | root habsolute after =>
    subst habsolute
    rfl

/-- Segments cancel in front of others as they do alone. -/
theorem Cancels.append_right (h : Cancels absolute xs ys) (zs : List (List Char)) :
    Cancels absolute (xs ++ zs) (ys ++ zs) := by
  cases h with
  | idle hs before after =>
    rw [List.append_assoc, List.append_assoc, List.cons_append]
    exact .idle hs before (after ++ zs)
  | up hs before after =>
    rw [List.append_assoc, List.append_assoc, List.cons_append, List.cons_append]
    exact .up hs before (after ++ zs)
  | root habsolute after => exact .root habsolute (ys ++ zs)

/-- Whatever can be left is what stands on the stack. -/
theorem Leaves.eq_cleanSegments (h : Leaves absolute segments xs) :
    cleanSegments absolute segments = xs := by
  have hstack : segments.foldl (pushSegment absolute) [] = xs.foldl (pushSegment absolute) [] := by
    obtain ⟨hrun, -⟩ := h
    induction hrun with
    | refl => rfl
    | tail _ hstep ih => rw [ih, hstep.foldl_eq]
  rw [cleanSegments, hstack, foldl_pushSegment_ordinary h.2, List.append_nil, List.reverse_reverse]

theorem cleanSegments_append_singleton (segments : List (List Char)) (s : List Char) :
    cleanSegments absolute (segments ++ [s]) =
      (pushSegment absolute (segments.foldl (pushSegment absolute) []) s).reverse := by
  rw [cleanSegments, List.foldl_append]
  rfl

/-- One more segment: it is put behind those that are left, and then cancels as far as it can. -/
theorem cancels_concat (segments : List (List Char)) (s : List Char) :
    ReflTransGen (Cancels absolute) (cleanSegments absolute segments ++ [s])
      (cleanSegments absolute (segments ++ [s])) := by
  rw [cleanSegments_append_singleton, cleanSegments]
  have hpush := pushes_pushSegment absolute (segments.foldl (pushSegment absolute) []) s
  generalize pushSegment absolute (segments.foldl (pushSegment absolute) []) s = result at hpush ⊢
  generalize hfold : segments.foldl (pushSegment absolute) [] = stack at hpush ⊢
  -- the steps of the stack, read as cancellations at the end of the path
  cases hpush with
  | idle hs =>
    have hstep : Cancels absolute (result.reverse ++ [s]) (result.reverse ++ []) :=
      .idle hs result.reverse []
    rw [List.append_nil] at hstep
    exact .single hstep
  | down hs => rw [List.reverse_cons]
  | pop htop =>
    have hstep : Cancels absolute (result.reverse ++ [_, ['.', '.']]) (result.reverse ++ []) :=
      .up (isOrdinary_top hfold htop) result.reverse []
    rw [List.append_nil] at hstep
    rw [List.reverse_cons, List.append_assoc]
    exact .single hstep
  | pile =>
    simp only [List.reverse_cons]
    exact .refl
  | root habsolute => exact .single (.root habsolute [])
  | climb habsolute => exact .refl

/-- The segments on the stack are left of the path by cancellation. -/
theorem cancels_cleanSegments (absolute : Bool) (segments : List (List Char)) :
    ReflTransGen (Cancels absolute) segments (cleanSegments absolute segments) := by
  induction segments using List.reverseRecOn with
  | nil => exact .refl
  | append_singleton segments s ih =>
    have hlift := ReflTransGen.lift (· ++ [s]) (fun _ _ h => Cancels.append_right h [s]) _ _ ih
    exact hlift.trans (cancels_concat segments s)

/-! ### Climbing -/

/-- The number of ordinary segments. -/
def downs (segments : List (List Char)) : Nat := segments.countP fun s => IsOrdinary s

/-- The number of `..`. -/
def ups (segments : List (List Char)) : Nat := segments.countP fun s => s = ['.', '.']

/-- Some beginning of the segments has more `..` than ordinary segments. -/
def Climbs (segments : List (List Char)) : Prop :=
  ∃ beginning, beginning <+: segments ∧ downs beginning < ups beginning

instance (segments : List (List Char)) : Decidable (Climbs segments) :=
  decidable_of_iff (∃ beginning ∈ segments.inits, downs beginning < ups beginning)
    (exists_congr fun beginning => and_congr_left' (List.mem_inits beginning segments))

theorem downs_append (xs ys : List (List Char)) : downs (xs ++ ys) = downs xs + downs ys :=
  List.countP_append

theorem ups_append (xs ys : List (List Char)) : ups (xs ++ ys) = ups xs + ups ys :=
  List.countP_append

theorem downs_cons_of_isOrdinary (h : IsOrdinary s) : downs (s :: xs) = downs xs + 1 :=
  List.countP_cons_of_pos (by simpa using h)

theorem downs_cons_of_not (h : ¬ IsOrdinary s) : downs (s :: xs) = downs xs :=
  List.countP_cons_of_neg (by simpa using h)

theorem ups_cons_up : ups (['.', '.'] :: xs) = ups xs + 1 := List.countP_cons_of_pos (by simp)

theorem ups_cons_of_ne (h : s ≠ ['.', '.']) : ups (s :: xs) = ups xs :=
  List.countP_cons_of_neg (by simpa using h)

theorem not_isOrdinary_up : ¬ IsOrdinary ['.', '.'] := fun h => h.ne_up rfl

@[simp]
theorem downs_nil : downs [] = 0 := rfl

@[simp]
theorem ups_nil : ups [] = 0 := rfl

theorem not_climbs_nil : ¬ Climbs [] := by
  intro h
  obtain ⟨beginning, hprefix, hcount⟩ := h
  rw [List.prefix_nil.1 hprefix] at hcount
  exact Nat.lt_irrefl 0 hcount

theorem Climbs.append_right (h : Climbs xs) (ys : List (List Char)) : Climbs (xs ++ ys) := by
  obtain ⟨beginning, hprefix, hcount⟩ := h
  exact ⟨beginning, hprefix.trans (List.prefix_append xs ys), hcount⟩

/-- A path climbs out of its start before its last segment or with it. -/
theorem climbs_concat :
    Climbs (xs ++ [s]) ↔ Climbs xs ∨ downs (xs ++ [s]) < ups (xs ++ [s]) := by
  constructor
  · intro h
    obtain ⟨beginning, hprefix, hcount⟩ := h
    rcases List.prefix_concat_iff.1 hprefix with hall | hbefore
    · exact .inr (hall ▸ hcount)
    · exact .inl ⟨beginning, hbefore, hcount⟩
  · intro h
    rcases h with h | hcount
    · exact h.append_right [s]
    · exact ⟨xs ++ [s], List.prefix_rfl, hcount⟩

theorem climbs_of_climbs_cons (h : Climbs (s :: xs)) (hs : IsOrdinary s) : Climbs xs := by
  obtain ⟨beginning, hprefix, hcount⟩ := h
  rcases List.prefix_cons_iff.1 hprefix with hnil | ⟨rest, heq, hrest⟩
  · rw [hnil] at hcount
    exact absurd hcount (Nat.lt_irrefl 0)
  · rw [heq, downs_cons_of_isOrdinary hs, ups_cons_of_ne hs.ne_up] at hcount
    exact ⟨rest, hrest, by omega⟩

/-- Only `..` makes a path climb. -/
theorem climbs_concat_of_ne (h : s ≠ ['.', '.']) : Climbs (xs ++ [s]) ↔ Climbs xs := by
  rw [climbs_concat, or_iff_left_iff_imp]
  intro hcount
  rw [downs_append, ups_append, ups_cons_of_ne h, ups_nil] at hcount
  exact ⟨xs, List.prefix_rfl, by omega⟩

/-- As long as a relative path does not climb, the stack holds an ordinary segment for each one that
no `..` has cancelled. -/
theorem length_add_ups (h : ¬ Climbs segments) :
    (∀ s ∈ segments.foldl (pushSegment false) [], IsOrdinary s) ∧
      (segments.foldl (pushSegment false) []).length + ups segments = downs segments := by
  induction segments using List.reverseRecOn with
  | nil => exact ⟨by simp, rfl⟩
  | append_singleton segments s ih =>
    obtain ⟨hbefore, hcount⟩ := not_or.1 (mt climbs_concat.2 h)
    obtain ⟨hordinary, hlength⟩ := ih hbefore
    rw [List.foldl_append, List.foldl_cons, List.foldl_nil]
    rw [downs_append, ups_append] at hcount ⊢
    have hpush := pushes_pushSegment false (segments.foldl (pushSegment false) []) s
    generalize pushSegment false (segments.foldl (pushSegment false) []) s = result at hpush ⊢
    generalize segments.foldl (pushSegment false) [] = stack at hpush hordinary hlength
    cases hpush with
    | idle hs =>
      rw [downs_cons_of_not hs.not_isOrdinary, ups_cons_of_ne hs.ne_up]
      exact ⟨hordinary, hlength⟩
    | down hs =>
      rw [downs_cons_of_isOrdinary hs, ups_cons_of_ne hs.ne_up, List.length_cons, downs_nil,
        ups_nil]
      exact ⟨List.forall_mem_cons.2 ⟨hs, hordinary⟩, by omega⟩
    | pop htop =>
      rw [downs_cons_of_not not_isOrdinary_up, ups_cons_up, downs_nil, ups_nil]
      rw [List.length_cons] at hlength
      exact ⟨(List.forall_mem_cons.1 hordinary).2, by omega⟩
    | pile rest => exact absurd (hordinary _ List.mem_cons_self) not_isOrdinary_up
    | root habsolute => cases habsolute
    | climb =>
      -- the count says that the stack is not empty
      rw [downs_cons_of_not not_isOrdinary_up, ups_cons_up, downs_nil, ups_nil] at hcount
      rw [List.length_nil] at hlength
      omega

/-- A `..` at the bottom of the stack is never taken off. -/
theorem getLast?_pushSegment (h : stack.getLast? = some ['.', '.']) :
    (pushSegment absolute stack s).getLast? = some ['.', '.'] := by
  have hpush := pushes_pushSegment absolute stack s
  generalize pushSegment absolute stack s = result at hpush ⊢
  cases hpush with
  | idle => exact h
  | down => rw [List.getLast?_cons, h]; rfl
  | pop htop =>
    cases result with
    | nil => exact absurd (Option.some.inj h) htop
    | cons next rest => rwa [List.getLast?_cons_cons] at h
  | pile => rw [List.getLast?_cons, h]; rfl
  | root => cases h
  | climb => cases h

theorem getLast?_foldl (h : stack.getLast? = some ['.', '.']) (segments : List (List Char)) :
    (segments.foldl (pushSegment absolute) stack).getLast? = some ['.', '.'] :=
  List.foldlRecOn (motive := fun stack => stack.getLast? = some ['.', '.']) segments
    (pushSegment absolute) h fun _ ih _ _ => getLast?_pushSegment ih

/-- The first `..` that finds the stack empty is left at its bottom. -/
theorem getLast?_of_climbs (h : Climbs segments) :
    (segments.foldl (pushSegment false) []).getLast? = some ['.', '.'] := by
  induction segments using List.reverseRecOn with
  | nil => exact absurd h not_climbs_nil
  | append_singleton segments s ih =>
    rw [List.foldl_append]
    by_cases hbefore : Climbs segments
    · exact getLast?_foldl (ih hbefore) [s]
    · have hup : s = ['.', '.'] := by
        by_contra hne
        exact hbefore ((climbs_concat_of_ne hne).1 h)
      have hcount := (climbs_concat.1 h).resolve_left hbefore
      obtain ⟨-, hlength⟩ := length_add_ups hbefore
      rw [hup, downs_append, ups_append, downs_cons_of_not not_isOrdinary_up, ups_cons_up,
        downs_nil, ups_nil] at hcount
      have hempty : segments.foldl (pushSegment false) [] = [] :=
        List.length_eq_zero_iff.1 (by omega)
      rw [hempty, hup]
      rfl

/-- A cleaned path starts with `..` exactly when the path climbs out of its start. -/
theorem head?_cleanSegments_iff :
    (cleanSegments false segments).head? = some ['.', '.'] ↔ Climbs segments := by
  rw [cleanSegments, List.head?_reverse]
  constructor
  · intro h
    by_contra hclimbs
    exact ((length_add_ups hclimbs).1 _ (List.mem_of_getLast? h)).ne_up rfl
  · exact getLast?_of_climbs

/-- At an absolute root every `..` is dropped or cancels. -/
theorem head?_cleanSegments_absolute :
    (cleanSegments true segments).head? ≠ some ['.', '.'] := by
  have hordinary : ∀ s ∈ segments.foldl (pushSegment true) [], IsOrdinary s := by
    refine List.foldlRecOn (motive := fun stack => ∀ s ∈ stack, IsOrdinary s) segments
      (pushSegment true) (by simp) fun stack ih s _ => ?_
    have hpush := pushes_pushSegment true stack s
    generalize pushSegment true stack s = result at hpush ⊢
    cases hpush with
    | idle => exact ih
    | down hs => exact List.forall_mem_cons.2 ⟨hs, ih⟩
    | pop => exact (List.forall_mem_cons.1 ih).2
    | pile => exact absurd (ih _ List.mem_cons_self) not_isOrdinary_up
    | root => exact ih
    | climb habsolute => cases habsolute
  intro h
  rw [cleanSegments, List.head?_reverse] at h
  exact (hordinary _ (List.mem_of_getLast? h)).ne_up rfl

theorem head?_cleanSegments_eq_up_iff :
    (cleanSegments absolute segments).head? = some ['.', '.'] ↔
      absolute = false ∧ Climbs segments := by
  cases absolute with
  | true => simpa using head?_cleanSegments_absolute
  | false => simpa using head?_cleanSegments_iff

/-! ### Paths and their segments -/

/-- The path of some segments, with a slash before them when it is absolute. -/
def ofSegments (absolute : Bool) (segments : List (List Char)) : String :=
  .ofList (rootText absolute ++ joinWith ['/'] segments)

/-- The segments of a path behind its root. There are none when nothing stands there. -/
def names (path : String) : List (List Char) :=
  let body := (dropPrefix? ['/'] path.toList).getD path.toList
  if body = [] then [] else splitOn '/' body

theorem toList_ofSegments : (ofSegments absolute segments).toList =
    rootText absolute ++ joinWith ['/'] segments := String.toList_ofList

theorem startsWith_ofSegments (h : ∀ s ∈ segments, s ≠ [] ∧ '/' ∉ s) :
    startsWith ['/'] (ofSegments absolute segments).toList = absolute := by
  rw [toList_ofSegments]
  cases absolute with
  | true => exact startsWith_slash_cons '/' _
  | false => exact startsWith_joinWith h

theorem dropPrefix?_of_startsWith (path : String) :
    path.toList = rootText (startsWith ['/'] path.toList) ++
      (dropPrefix? ['/'] path.toList).getD path.toList := by
  cases hdrop : dropPrefix? ['/'] path.toList with
  | none => rw [startsWith, hdrop]; rfl
  | some body => rw [startsWith, hdrop, dropPrefix?_eq_some_iff.1 hdrop]; rfl

/-- The segments behind the root make up the path again. -/
theorem ofSegments_names (path : String) :
    ofSegments (startsWith ['/'] path.toList) (names path) = path := by
  apply String.toList_inj.1
  rw [toList_ofSegments]
  conv => rhs; rw [dropPrefix?_of_startsWith path]
  congr 1
  simp only [names]
  split
  · next hbody => rw [hbody]; rfl
  · exact joinWith_splitOn '/' _

theorem joinWith_eq_nil_iff :
    joinWith ['/'] segments = [] ↔ segments = [] ∨ segments = [[]] := by
  cases segments with
  | nil => simp [joinWith]
  | cons s segments => cases segments <;> simp [joinWith]

/-- A path that starts as it should has the segments that it is made of. -/
theorem names_ofSegments (hslash : ∀ s ∈ segments, '/' ∉ s) (hempty : segments ≠ [[]])
    (hstart : startsWith ['/'] (ofSegments absolute segments).toList = absolute) :
    names (ofSegments absolute segments) = segments := by
  have hbody : (dropPrefix? ['/'] (ofSegments absolute segments).toList).getD
      (ofSegments absolute segments).toList = joinWith ['/'] segments := by
    have htext := dropPrefix?_of_startsWith (ofSegments absolute segments)
    rw [hstart] at htext
    exact (List.append_cancel_left (toList_ofSegments.symm.trans htext)).symm
  simp only [names]
  rw [hbody]
  split
  · next hnil => exact ((joinWith_eq_nil_iff.1 hnil).resolve_right hempty).symm
  · next hne => exact splitOn_joinWith hslash fun hnil => hne (joinWith_eq_nil_iff.2 (.inl hnil))

/-- A path is read back into the segments that it was joined from. -/
theorem names_of_proper (absolute : Bool) (h : ∀ s ∈ segments, s ≠ [] ∧ '/' ∉ s) :
    names (ofSegments absolute segments) = segments := by
  refine names_ofSegments (fun s hs => (h s hs).2) ?_ (startsWith_ofSegments h)
  intro hempty
  subst hempty
  exact (h [] List.mem_cons_self).1 rfl

/-- Nothing but empty segments stands before those that a path is made of. -/
theorem splitOn_ofSegments (absolute : Bool) (hslash : ∀ s ∈ segments, '/' ∉ s) :
    ∃ before, (∀ s ∈ before, s = []) ∧
      splitOn '/' (ofSegments absolute segments).toList = before ++ segments := by
  have hbody : ∃ before, (∀ s ∈ before, s = []) ∧
      splitOn '/' (joinWith ['/'] segments) = before ++ segments := by
    by_cases hnil : segments = []
    · subst hnil
      exact ⟨[[]], by simp, rfl⟩
    · exact ⟨[], by simp, splitOn_joinWith hslash hnil⟩
  obtain ⟨before, hbefore, hsplit⟩ := hbody
  rw [toList_ofSegments]
  cases absolute with
  | true =>
    have hroot : splitOn '/' (rootText true ++ joinWith ['/'] segments) =
        [] :: splitOn '/' (joinWith ['/'] segments) := splitOn_append_cons '/' [] _
    exact ⟨[] :: before, List.forall_mem_cons.2 ⟨rfl, hbefore⟩, by rw [hroot, hsplit]; rfl⟩
  | false => exact ⟨before, hbefore, hsplit⟩

theorem foldl_pushSegment_of_isIdle (h : ∀ s ∈ segments, IsIdle s) (stack : List (List Char)) :
    segments.foldl (pushSegment absolute) stack = stack := by
  induction segments with
  | nil => rfl
  | cons s segments ih =>
    obtain ⟨hs, hsegments⟩ := List.forall_mem_cons.1 h
    rw [List.foldl_cons, pushSegment_of_isIdle hs, ih hsegments]

/-! ### Clean forms -/

theorem backslash_not_mem_ofSegments (h : ∀ s ∈ segments, '\\' ∉ s) :
    '\\' ∉ (ofSegments absolute segments).toList := by
  rw [toList_ofSegments, List.mem_append, not_or]
  constructor
  · cases absolute <;> decide
  · intro hc
    rcases mem_joinWith hc with hc | ⟨s, hs, hc⟩
    · exact absurd hc (by decide)
    · exact h s hs hc

/-- A path is cleaned by whether it is absolute and by the segments that are left. -/
theorem clean?_congr {path other : String}
    (hstart : startsWith ['/'] path.toList = startsWith ['/'] other.toList)
    (hkept : cleanSegments (startsWith ['/'] path.toList) (splitOn '/' path.toList) =
      cleanSegments (startsWith ['/'] path.toList) (splitOn '/' other.toList)) :
    clean? path = clean? other := by
  rw [clean?_eq, clean?_eq, hkept, hstart]

theorem clean?_eq_withSlashes (path : String) :
    let absolute := startsWith ['/'] path.toList
    let segments := splitOn '/' path.toList
    clean? path = if absolute = false ∧ Climbs segments then none
      else some (withSlashes (ofSegments absolute (cleanSegments absolute segments))) := by
  intro absolute segments
  rw [clean?_eq]
  exact if_congr head?_cleanSegments_eq_up_iff rfl rfl

theorem backslash_not_mem_clean? {path text : String} (h : clean? path = some text) :
    '\\' ∉ text.toList := by
  rw [clean?_eq_withSlashes, Option.ite_none_left_eq_some, Option.some.injEq] at h
  exact h.2 ▸ backslash_not_mem_withSlashes _

/-- The clean form of a path without backslashes. -/
theorem clean?_eq_ofSegments {path : String} (h : '\\' ∉ path.toList) :
    let absolute := startsWith ['/'] path.toList
    let segments := splitOn '/' path.toList
    clean? path = if absolute = false ∧ Climbs segments then none
      else some (ofSegments absolute (cleanSegments absolute segments)) := by
  intro absolute segments
  have hkept : '\\' ∉ (ofSegments absolute (cleanSegments absolute segments)).toList :=
    backslash_not_mem_ofSegments fun s hs hc => h (mem_of_mem_splitOn (mem_cleanSegments hs) hc)
  rw [clean?_eq_withSlashes, withSlashes_eq_self hkept]

/-- What is left of a path without backslashes are names. -/
theorem Leaves.isName {path : String} {kept : List (List Char)} (hpath : '\\' ∉ path.toList)
    (h : Leaves absolute (splitOn '/' path.toList) kept) : ∀ s ∈ kept, IsName s := by
  intro s hs
  have hsegment : s ∈ splitOn '/' path.toList := by
    rw [← h.eq_cleanSegments] at hs
    exact mem_cleanSegments hs
  exact ⟨h.2 s hs, not_mem_of_mem_splitOn hsegment,
    fun hc => hpath (mem_of_mem_splitOn hsegment hc)⟩

theorem not_climbs_of_leaves (h : Leaves absolute segments xs) :
    ¬ (absolute = false ∧ Climbs segments) := by
  rw [← head?_cleanSegments_eq_up_iff, h.eq_cleanSegments]
  intro hhead
  exact (h.2 _ (List.mem_of_head? hhead)).ne_up rfl

theorem leaves_of_not_climbs (h : ¬ (absolute = false ∧ Climbs segments)) :
    Leaves absolute segments (cleanSegments absolute segments) :=
  ⟨cancels_cleanSegments absolute segments,
    fun _ hs => isOrdinary_of_mem_cleanSegments (mt head?_cleanSegments_eq_up_iff.1 h) hs⟩

/-- A path has the clean form `text` exactly when cancellation leaves ordinary segments, and those
are the segments of `text`. -/
theorem clean?_eq_some_iff {path text : String} (h : '\\' ∉ path.toList) :
    clean? path = some text ↔ ∃ kept, Leaves (startsWith ['/'] path.toList)
      (splitOn '/' path.toList) kept ∧ text = ofSegments (startsWith ['/'] path.toList) kept := by
  rw [clean?_eq_ofSegments h]
  constructor
  · intro htext
    split at htext
    · cases htext
    · next hclimbs => exact ⟨_, leaves_of_not_climbs hclimbs, (Option.some.inj htext).symm⟩
  · intro hkept
    obtain ⟨kept, hleaves, rfl⟩ := hkept
    rw [if_neg (not_climbs_of_leaves hleaves), hleaves.eq_cleanSegments]

/-- A path of ordinary segments, without backslashes, is its own clean form. -/
theorem clean?_eq_self {path : String} (hpath : '\\' ∉ path.toList)
    (h : ∀ s ∈ names path, IsOrdinary s) : clean? path = some path := by
  have hslash : ∀ s ∈ names path, '/' ∉ s := by
    intro s hs
    simp only [names] at hs
    split at hs
    · cases hs
    · exact not_mem_of_mem_splitOn hs
  obtain ⟨before, hbefore, hsplit⟩ := splitOn_ofSegments (startsWith ['/'] path.toList) hslash
  rw [ofSegments_names] at hsplit
  have hkept : cleanSegments (startsWith ['/'] path.toList) (splitOn '/' path.toList) =
      names path := by
    rw [hsplit, cleanSegments, List.foldl_append,
      foldl_pushSegment_of_isIdle fun s hs => .inl (hbefore s hs), foldl_pushSegment_ordinary h,
      List.append_nil, List.reverse_reverse]
  refine (clean?_eq_some_iff hpath).2 ⟨names path, ⟨?_, h⟩, (ofSegments_names path).symm⟩
  have hrun := cancels_cleanSegments (startsWith ['/'] path.toList) (splitOn '/' path.toList)
  rwa [hkept] at hrun

/-- The clean form of a path without backslashes keeps the root and has ordinary segments only. -/
theorem clean?_spec {path text : String} (hpath : '\\' ∉ path.toList)
    (htext : clean? path = some text) :
    startsWith ['/'] text.toList = startsWith ['/'] path.toList ∧
      (∀ s ∈ names text, IsOrdinary s) ∧ clean? text = some text := by
  obtain ⟨kept, hleaves, rfl⟩ := (clean?_eq_some_iff hpath).1 htext
  have hkept := hleaves.isName hpath
  have hproper : ∀ s ∈ kept, s ≠ [] ∧ '/' ∉ s :=
    fun s hs => ⟨(hkept s hs).ne_nil, (hkept s hs).noSlash⟩
  have hnames := names_of_proper (startsWith ['/'] path.toList) hproper
  have hordinary : ∀ s ∈ names (ofSegments (startsWith ['/'] path.toList) kept), IsOrdinary s := by
    rw [hnames]
    exact hleaves.2
  exact ⟨startsWith_ofSegments hproper, hordinary,
    clean?_eq_self (backslash_not_mem_ofSegments fun s hs => (hkept s hs).noBackslash) hordinary⟩

/-- **Cleaning is cancellation.** Let `path` have no backslash. It has no clean form exactly when it
is relative and some beginning of its segments has more `..` than ordinary segments. Otherwise its
clean form consists of the segments that are left when `..` cancels the ordinary segment before it,
and is dropped at an absolute root; in whatever order this is done, nothing else can be left. The
clean form is absolute when the path is, all its segments are ordinary, and it is its own clean
form. -/
theorem cleaning_cancels_segments {path : String} (hpath : '\\' ∉ path.toList) :
    (clean? path = none ↔
      startsWith ['/'] path.toList = false ∧ Climbs (splitOn '/' path.toList)) ∧
      (∀ text, clean? path = some text ↔
        ∃ kept, Leaves (startsWith ['/'] path.toList) (splitOn '/' path.toList) kept ∧
          text = ofSegments (startsWith ['/'] path.toList) kept) ∧
      ∀ text, clean? path = some text →
        startsWith ['/'] text.toList = startsWith ['/'] path.toList ∧
          (∀ s ∈ names text, IsOrdinary s) ∧ clean? text = some text := by
  refine ⟨?_, fun text => clean?_eq_some_iff hpath, fun text => clean?_spec hpath⟩
  rw [clean?_eq_ofSegments hpath]
  simp

/-- An absolute path with every kind of segment, and a relative one that climbs. -/
theorem cleaning_cancels_sample :
    '\\' ∉ "/../src//a/./../b.ts/".toList ∧
      clean? "/../src//a/./../b.ts/" = some "/src/b.ts" ∧ clean? "/src/b.ts" = some "/src/b.ts" ∧
      Climbs (splitOn '/' "src/../../b.ts".toList) ∧ clean? "src/../../b.ts" = none := by
  have hpath : '\\' ∉ "/../src//a/./../b.ts/".toList := by decide
  have hclimb : '\\' ∉ "src/../../b.ts".toList := by decide
  have hclean : clean? "/../src//a/./../b.ts/" = some "/src/b.ts" := by decide
  have hclimbs : Climbs (splitOn '/' "src/../../b.ts".toList) := by decide
  obtain ⟨-, -, hresult⟩ := cleaning_cancels_segments hpath
  exact ⟨hpath, hclean, (hresult _ hclean).2.2, hclimbs,
    (cleaning_cancels_segments hclimb).1.2 ⟨by decide, hclimbs⟩⟩

end DeadCode.Path
