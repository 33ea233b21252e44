import DeadCode.Proofs.CommentedLines

/-!
# DeadCode.Proofs.PythonComments

Comments in Python texts. Imports are read line by line from the code before the comments, with one
exception: a list of names in brackets is read up to the next closing bracket, wherever it stands. A
closing bracket in a comment closes an open list like one in the code, and every other comment makes
no difference to the imports of a text (`imports_scan_annotatedText`).
-/

namespace DeadCode.Python

open Text

/-! ### Lists left open -/

/-- Whether a text starts with a bracket that is not closed in it. -/
def startsOpen : List Char → Bool
  | '(' :: inner => !inner.contains ')'
  | _ => false

/-- Whether the code of a line opens a list of names that it does not close. -/
def opensList (code : List Char) : Bool :=
  (fromHead code).any fun head =>
    !(head.2.takeWhile isBlank).isEmpty && startsOpen (head.2.dropWhile isBlank)

namespace Line

/-- The line with the closing bracket of its comment instead of the comment. -/
def closed (l : Line) : List Char := l.code ++ (')' :: l.stop)

/-- Whether a list is open behind the code of the line, when it is open or not before the line. -/
def leavesOpen (isOpen : Bool) (l : Line) : Bool :=
  if isOpen then !l.code.contains ')' else opensList l.code

/-- Whether the comment of the line closes a list. -/
def closesList (isOpen : Bool) (l : Line) : Bool := l.leavesOpen isOpen && l.comment.contains ')'

end Line

/-- The lines without their comments. A comment that closes a list leaves a closing bracket. -/
def withoutComments : Bool → List Line → List (List Char)
  | _, [] => []
  | isOpen, l :: ls =>
    if l.closesList isOpen then l.closed :: withoutComments false ls
    else l.bare :: withoutComments (l.leavesOpen isOpen) ls

/-- Whether no comment closes a list. -/
def sparesLists : Bool → List Line → Bool
  | _, [] => true
  | isOpen, l :: ls => !l.closesList isOpen && sparesLists (l.leavesOpen isOpen) ls

/-- The text of lines with their comments. -/
def annotatedText (ls : List Line) : String := .ofList (joinLines (ls.map Line.annotated))

/-- The text of lines without their comments. -/
def bareText (ls : List Line) : String := .ofList (joinLines (ls.map Line.bare))

section WithoutComments

variable {ls : List Line} {isOpen : Bool}

/-- Where comments spare the lists, only the comments go. -/
theorem withoutComments_of_sparesLists (h : sparesLists isOpen ls = true) :
    withoutComments isOpen ls = ls.map Line.bare := by
  induction ls generalizing isOpen with
  | nil => rfl
  | cons l ls ih =>
    rw [sparesLists, Bool.and_eq_true, Bool.not_eq_true'] at h
    rw [withoutComments, h.1, if_neg Bool.false_ne_true, ih h.2]
    rfl

theorem sparesLists_of_not_mem (h : ∀ l ∈ ls, ')' ∉ l.comment) : sparesLists isOpen ls = true := by
  induction ls generalizing isOpen with
  | nil => rfl
  | cons l ls ih =>
    rw [sparesLists, ih fun m hm => h m (.tail _ hm)]
    simp [Line.closesList, h l List.mem_cons_self]

/-- Lines without a closing bracket leave a list open. -/
theorem withoutComments_append {mid : List Line} (h : ∀ m ∈ mid, ')' ∉ m.annotated)
    (rest : List Line) :
    withoutComments true (mid ++ rest) = mid.map Line.bare ++ withoutComments true rest := by
  induction mid with
  | nil => rfl
  | cons m mid ih =>
    have hm := h m List.mem_cons_self
    rw [Line.annotated, List.mem_append, List.mem_append, not_or, not_or] at hm
    have hopen : m.leavesOpen true = true := by simp [Line.leavesOpen, hm]
    have hspared : ¬ m.closesList true = true := by simp [Line.closesList, hm]
    rw [List.cons_append, withoutComments, if_neg hspared, hopen, ih fun x hx => h x (.tail _ hx)]
    rfl

/-- A line with a closing bracket closes the list, in its code or in its comment. -/
theorem withoutComments_cons_of_mem {l : Line} (h : ')' ∈ l.annotated) :
    withoutComments true (l :: ls) =
      (if ')' ∈ l.code then l.bare else l.closed) :: withoutComments false ls := by
  rw [Line.annotated, List.mem_append, List.mem_append] at h
  rw [withoutComments, Line.closesList, Line.leavesOpen]
  by_cases hcode : ')' ∈ l.code
  · simp [hcode]
  · have hcomment : ')' ∈ l.comment := by simpa [hcode, l.close_not_mem_stop] using h
    simp [hcode, hcomment]

theorem newline_not_mem_withoutComments (isOpen : Bool) (ls : List Line) :
    ∀ x ∈ withoutComments isOpen ls, '\n' ∉ x := by
  induction ls generalizing isOpen with
  | nil => simp [withoutComments]
  | cons l ls ih =>
    rw [withoutComments]
    split
    · refine List.forall_mem_cons.2 ⟨?_, ih _⟩
      simp [Line.closed, l.code_line, l.newline_not_mem_stop]
    · exact List.forall_mem_cons.2 ⟨l.newline_not_mem_bare, ih _⟩

end WithoutComments

/-! ### What stands behind the code of a line -/

theorem stops_lines (ls : List (List Char)) : Stops (· != '\n') (ls.flatMap ('\n' :: ·)) := by
  cases ls with
  | nil => exact stops_nil
  | cons l ls => exact stops_cons.2 rfl

theorem halts_lines (ls : List (List Char)) : Halts (ls.flatMap ('\n' :: ·)) := by
  cases ls with
  | nil => simp [Halts]
  | cons l ls => simp [Halts, halts]

theorem halts_lines_append (ls : List (List Char)) (rest : List Char) :
    Halts (ls.flatMap ('\n' :: ·) ++ '\n' :: rest) := by
  cases ls with
  | nil => simp [Halts, halts]
  | cons l ls => simp [Halts, halts]

theorem halts_close (rest : List Char) : Halts (')' :: rest) := by
  simp [Halts, halts]

theorem halts_comment (k rest : List Char) : Halts ('#' :: k ++ rest) := by
  simp [Halts, halts]

namespace Line

variable {rest : List Char}

theorem halts_stop (l : Line) (hrest : Halts rest) : Halts (l.stop ++ rest) := by
  unfold stop
  split
  · simp [Halts, halts]
  · exact hrest

theorem halts_comment (l : Line) (hrest : Halts rest) : Halts (l.comment ++ l.stop ++ rest) := by
  rcases l.comment_eq with hnil | ⟨k, hk⟩
  · rw [hnil, List.nil_append]
    exact l.halts_stop hrest
  · simp [hk, Halts, halts]

theorem joinLines_annotated (l : Line) (ls : List (List Char)) : joinLines (l.annotated :: ls) =
    l.code ++ (l.comment ++ l.stop ++ ls.flatMap ('\n' :: ·)) := by
  simp [joinLines_cons, annotated]

theorem joinLines_bare (l : Line) (ls : List (List Char)) : joinLines (l.bare :: ls) =
    l.code ++ (l.stop ++ ls.flatMap ('\n' :: ·)) := by
  simp [joinLines_cons, bare]

theorem joinLines_closed (l : Line) (ls : List (List Char)) : joinLines (l.closed :: ls) =
    l.code ++ ')' :: (l.stop ++ ls.flatMap ('\n' :: ·)) := by
  simp [joinLines_cons, closed]

end Line

/-! ### Plain imports -/

/-- Plain imports are read from the code of their lines alone. -/
theorem readLines_import (ls : List Line) (isOpen : Bool) (line : Nat) :
    readLines (importStatement none) plain 0 line (ls.map Line.annotated) =
      readLines (importStatement none) plain 0 line (withoutComments isOpen ls) := by
  induction ls generalizing isOpen line with
  | nil => rfl
  | cons l ls ih =>
    have hannotated := readStep_import line l.code_line
      (l.halts_comment (halts_lines (ls.map Line.annotated)))
    rw [← Line.joinLines_annotated] at hannotated
    rw [List.map_cons, withoutComments]
    split
    · have hclosed := readStep_import line l.code_line
        (halts_close (l.stop ++ (withoutComments false ls).flatMap ('\n' :: ·)))
      rw [← Line.joinLines_closed] at hclosed
      exact ReadAlike.readLines_eq ⟨_, hannotated, hclosed⟩ (ih false _)
    · have hbare := readStep_import line l.code_line
        (l.halts_stop (halts_lines (withoutComments (l.leavesOpen isOpen) ls)))
      rw [← Line.joinLines_bare] at hbare
      exact ReadAlike.readLines_eq ⟨_, hannotated, hbare⟩ (ih _ _)

/-! ### Imports from a module -/

/-- The code of a line starts a list and does not close it: `behind` is left of it behind the name
of the module, and `inner` behind the opening bracket. -/
structure IsListStart (code name behind inner : List Char) : Prop where
  head : fromHead code = some (name, behind)
  blank : behind.takeWhile isBlank ≠ []
  list : behind.dropWhile isBlank = '(' :: inner
  open_end : ')' ∉ inner

/-- A list stays open when its line does not close it. -/
theorem startsOpen_iff {cs : List Char} :
    startsOpen cs = true ↔ ∃ inner, cs = '(' :: inner ∧ ')' ∉ inner := by
  unfold startsOpen
  split
  · simp
  · next hcs =>
    constructor
    · exact fun h => absurd h Bool.false_ne_true
    · rintro ⟨inner, hinner, -⟩
      exact absurd hinner (hcs inner)

theorem opensList_iff {code : List Char} :
    opensList code = true ↔ ∃ name behind inner, IsListStart code name behind inner := by
  rw [opensList]
  constructor
  · cases hhead : fromHead code with
    | none => simp
    | some head =>
      rw [Option.any_some, Bool.and_eq_true, startsOpen_iff]
      rintro ⟨hblank, inner, hinner, hopen⟩
      exact ⟨head.1, head.2, inner, hhead, by simpa using hblank, hinner, hopen⟩
  · rintro ⟨name, behind, inner, h⟩
    rw [h.head, Option.any_some, Bool.and_eq_true, startsOpen_iff]
    exact ⟨by simpa using h.blank, inner, h.list, h.open_end⟩

theorem selected_congr {names names' : List Char} (line : Nat) (name : List Char)
    (h : nameSpecifiers names = nameSpecifiers names') :
    selected line (name, names) = selected line (name, names') := by
  simp only [selected, namesImport, h]

section Alike

variable {l : Line} {name behind inner : List Char}

theorem newline_not_mem_names (hhead : fromHead l.code = some (name, behind)) :
    '\n' ∉ behind.dropWhile isBlank := fun hmem =>
  l.code_line ((suffix_of_fromHead hhead).mem ((List.dropWhile_sublist _).mem hmem))

/-- Names on a line are read alike with and without a comment behind them. -/
theorem readAlike_line (line : Nat) (hhead : fromHead l.code = some (name, behind))
    (hblank : behind.takeWhile isBlank ≠ []) {ls ls' : List (List Char)}
    (hline : ∀ inner, behind.dropWhile isBlank ++
      (l.comment ++ l.stop ++ ls.flatMap ('\n' :: ·)) = '(' :: inner → ')' ∉ inner)
    (hline' : ∀ inner, behind.dropWhile isBlank ++
      (l.stop ++ ls'.flatMap ('\n' :: ·)) = '(' :: inner → ')' ∉ inner) :
    ReadAlike (fromStatement none) selected line 0 (joinLines (l.annotated :: ls))
      (joinLines (l.bare :: ls')) := by
  have hannotated := readStep_from_of_line l.code_line (l.halts_comment (halts_lines ls)) hhead line
    hblank hline
  have hbare := readStep_from_of_line l.code_line (l.halts_stop (halts_lines ls')) hhead line
    hblank hline'
  rw [Line.joinLines_annotated, Line.joinLines_bare]
  rw [selected_congr line name (nameSpecifiers_line l (newline_not_mem_names hhead) (stops_lines ls)
    (stops_lines ls'))] at hannotated
  exact ⟨_, hannotated, hbare⟩

/-- A line that leaves no list open is read alike with and without its comment. -/
theorem readAlike_of_not_opens (line : Nat) (hopens : opensList l.code = false)
    (ls ls' : List (List Char)) :
    ReadAlike (fromStatement none) selected line 0 (joinLines (l.annotated :: ls))
      (joinLines (l.bare :: ls')) := by
  have htail := l.halts_comment (halts_lines ls)
  have htail' := l.halts_stop (halts_lines ls')
  cases hhead : fromHead l.code with
  | none =>
    rw [Line.joinLines_annotated, Line.joinLines_bare]
    exact ⟨_, readStep_from_of_none line htail hhead, readStep_from_of_none line htail' hhead⟩
  | some head =>
    obtain ⟨name, behind⟩ := head
    by_cases hblank : behind.takeWhile isBlank = []
    · rw [Line.joinLines_annotated, Line.joinLines_bare]
      exact ⟨_, readStep_from_of_no_blank l.code_line htail hhead line hblank,
        readStep_from_of_no_blank l.code_line htail' hhead line hblank⟩
    -- a list on one line ends at its bracket, and anything else ends with the code
    by_cases hlist : ∃ inner, behind.dropWhile isBlank = '(' :: inner
    · obtain ⟨inner, hinner⟩ := hlist
      -- the line does not leave the list open
      have hmem : ')' ∈ inner := by
        by_contra hnot
        rw [opensList_iff.2 ⟨name, behind, inner, hhead, hblank, hinner, hnot⟩] at hopens
        cases hopens
      obtain ⟨names, after, rfl, hnames⟩ := List.eq_append_cons_of_mem hmem
      have hline : '\n' ∉ names := fun hmem => newline_not_mem_names hhead (by simp [hinner, hmem])
      have hlist : ∀ tail, behind.dropWhile isBlank ++ tail =
          '(' :: names ++ ')' :: (after ++ tail) := by simp [hinner]
      rw [Line.joinLines_annotated, Line.joinLines_bare, ← newlines_eq_zero hline]
      exact ⟨_, readStep_from_of_list l.code_line htail hhead line hblank (hlist _) hnames,
        readStep_from_of_list l.code_line htail' hhead line hblank (hlist _) hnames⟩
    -- a tail halts, so it opens no bracket that the code has not opened
    · have hnot : ∀ {tail}, Halts tail → ∀ inner,
          behind.dropWhile isBlank ++ tail = '(' :: inner → ')' ∉ inner := by
        intro tail htail inner hinner
        cases hnames : behind.dropWhile isBlank with
        | nil =>
          rw [hnames, List.nil_append] at hinner
          simp [hinner, Halts, halts] at htail
        | cons c cs =>
          rw [hnames, List.cons_append] at hinner
          exact absurd ⟨cs, by rw [hnames, (List.cons.inj hinner).1]⟩ hlist
      exact readAlike_line line hhead hblank (hnot htail) (hnot htail')

namespace IsListStart

theorem suffix (h : IsListStart l.code name behind inner) : '(' :: inner <:+ l.code := by
  rw [← h.list]
  exact (List.dropWhile_suffix _).trans (suffix_of_fromHead h.head)

theorem newline_not_mem (h : IsListStart l.code name behind inner) : '\n' ∉ inner := fun hmem =>
  l.code_line (h.suffix.mem (.tail _ hmem))

/-- An open list is read up to the next closing bracket. -/
theorem readStep_list (h : IsListStart l.code name behind inner) (line : Nat)
    {names after : List Char} (hnames : ')' ∉ names) (hhalts : Halts (names ++ ')' :: after)) :
    readStep (fromStatement none) selected line (l.code ++ (names ++ ')' :: after)) =
      (selected line (name, '(' :: inner ++ (names ++ [')'])), newlines names) := by
  have hlist : behind.dropWhile isBlank ++ (names ++ ')' :: after) =
      '(' :: (inner ++ names) ++ ')' :: after := by simp [h.list]
  rw [readStep_from_of_list l.code_line hhalts h.head line h.blank hlist
      (by simp [h.open_end, hnames]), newlines_append, newlines_eq_zero h.newline_not_mem,
    Nat.zero_add]
  simp

/-- A comment that closes a list is read as the closing bracket. -/
theorem readAlike_closed (h : IsListStart l.code name behind inner) (line : Nat)
    (hclose : ')' ∈ l.comment) (ls ls' : List (List Char)) :
    ReadAlike (fromStatement none) selected line 0 (joinLines (l.annotated :: ls))
      (joinLines (l.closed :: ls')) := by
  obtain ⟨k, after, hcomment, hk, hkline⟩ := l.exists_comment_eq hclose
  have hannotated := h.readStep_list line hk
    (halts_comment k (')' :: (after ++ l.stop ++ ls.flatMap ('\n' :: ·))))
  have hclosed := h.readStep_list line List.not_mem_nil
    (halts_close (l.stop ++ ls'.flatMap ('\n' :: ·)))
  have hnames : nameSpecifiers ('(' :: inner ++ ('#' :: k ++ [')'])) =
      nameSpecifiers ('(' :: inner ++ ([] ++ [')'])) :=
    nameSpecifiers_closed [] (x := '(' :: inner) (k := k ++ [')']) (by simp)
      (by simp [h.newline_not_mem]) (by simp [h.open_end]) (by simp [hkline])
  have htext : l.comment ++ l.stop ++ ls.flatMap ('\n' :: ·) =
      '#' :: k ++ ')' :: (after ++ l.stop ++ ls.flatMap ('\n' :: ·)) := by simp [hcomment]
  rw [selected_congr line name hnames, newlines_eq_zero (by simp [hkline])] at hannotated
  rw [Line.joinLines_annotated, Line.joinLines_closed, htext]
  exact ⟨_, hannotated, hclosed⟩

/-- A list that goes over several lines: `t` is left of the first one, and `q` stands before the
closing bracket on the last one. -/
theorem readStep_lines (h : IsListStart l.code name behind inner) (line : Nat) (t : List Char)
    (ms : List (List Char)) (q after : List Char)
    (hhalts : Halts (t ++ (ms.flatMap ('\n' :: ·) ++ '\n' :: (q ++ ')' :: after))))
    (hline : ∀ x ∈ t :: ms ++ [q], '\n' ∉ x) (hclose : ∀ x ∈ t :: ms ++ [q], ')' ∉ x) :
    readStep (fromStatement none) selected line
        (l.code ++ (t ++ (ms.flatMap ('\n' :: ·) ++ '\n' :: (q ++ ')' :: after)))) =
      (selected line (name, joinLines (('(' :: inner ++ t) :: ms ++ [q ++ [')']])),
        ms.length + 1) := by
  have hwhole : t ++ (ms.flatMap ('\n' :: ·) ++ '\n' :: (q ++ ')' :: after)) =
      joinLines (t :: ms ++ [q]) ++ ')' :: after := by
    simp [joinLines_cons]
  have hnames : ')' ∉ joinLines (t :: ms ++ [q]) := fun hmem => by
    rcases mem_joinWith hmem with heq | ⟨x, hx, hmem⟩
    · cases heq
    · exact hclose x hx hmem
  have hlines : newlines (joinLines (t :: ms ++ [q])) = ms.length + 1 := by
    have hlength : (t :: ms ++ [q]).length = ms.length + 2 := by simp
    have := newlines_joinLines hline (by simp)
    omega
  have hbracketed : '(' :: inner ++ (joinLines (t :: ms ++ [q]) ++ [')']) =
      joinLines (('(' :: inner ++ t) :: ms ++ [q ++ [')']]) := by
    simp [joinLines_cons]
  rw [hwhole] at hhalts ⊢
  rw [h.readStep_list line hnames hhalts, hbracketed, hlines]

/-- A list that goes over several lines is read alike with and without the comments in it, if what
stands on its last line makes no difference. -/
theorem readAlike_lines (h : IsListStart l.code name behind inner) (line : Nat)
    (hcomment : ')' ∉ l.comment) {mid : List Line} (hmid : ∀ m ∈ mid, ')' ∉ m.annotated)
    (q q' : List Char) (hq : '\n' ∉ q ∧ ')' ∉ q) (hq' : '\n' ∉ q' ∧ ')' ∉ q')
    (hnames : ∀ first : Line, ')' ∉ first.code →
      nameSpecifiers (joinLines ((first :: mid).map Line.annotated ++ [q ++ [')']])) =
        nameSpecifiers (joinLines ((first :: mid).map Line.bare ++ [q' ++ [')']])))
    (after after' : List Char) :
    ReadAlike (fromStatement none) selected line (mid.length + 1)
      (l.code ++ (l.comment ++ l.stop ++
        ((mid.map Line.annotated).flatMap ('\n' :: ·) ++ '\n' :: (q ++ ')' :: after))))
      (l.code ++ (l.stop ++
        ((mid.map Line.bare).flatMap ('\n' :: ·) ++ '\n' :: (q' ++ ')' :: after')))) := by
  -- what stands behind the start of the list counts as the code of a first line
  have hspecifiers := hnames (l.behind (List.cons_ne_nil _ _) h.suffix) (by
    simpa [Line.behind] using h.open_end)
  have hmid' : ∀ m ∈ mid, ')' ∉ m.bare := fun m hm => m.close_not_mem_bare (hmid m hm)
  have hannotated := h.readStep_lines line (l.comment ++ l.stop) (mid.map Line.annotated) q after
    (l.halts_comment (halts_lines_append _ _))
    (by simp [or_imp, forall_and, l.comment_line, l.newline_not_mem_stop,
      Line.newline_not_mem_annotated, hq])
    (by simpa [or_imp, forall_and, hcomment, l.close_not_mem_stop, hq] using hmid)
  have hbare := h.readStep_lines line l.stop (mid.map Line.bare) q' after'
    (l.halts_stop (halts_lines_append _ _))
    (by simp [or_imp, forall_and, l.newline_not_mem_stop, Line.newline_not_mem_bare, hq'])
    (by simpa [or_imp, forall_and, l.close_not_mem_stop, hq'] using hmid')
  have hsame : selected line (name, joinLines (('(' :: inner ++ (l.comment ++ l.stop)) ::
      mid.map Line.annotated ++ [q ++ [')']])) = selected line (name, joinLines
        (('(' :: inner ++ l.stop) :: mid.map Line.bare ++ [q' ++ [')']])) :=
    selected_congr line name hspecifiers
  rw [hsame, List.length_map] at hannotated
  rw [List.length_map] at hbare
  exact ⟨_, hannotated, hbare⟩

/-- A list that goes over several lines is read alike with and without the comments in it, except
that a comment which closes the list is read as the closing bracket. -/
theorem readAlike_list (h : IsListStart l.code name behind inner) (line : Nat)
    (hcomment : ')' ∉ l.comment) {mid : List Line} (hmid : ∀ m ∈ mid, ')' ∉ m.annotated)
    {last : Line} (hlast : ')' ∈ last.annotated) (ls ls' : List (List Char)) :
    ReadAlike (fromStatement none) selected line (mid.length + 1)
      (joinLines (l.annotated :: (mid.map Line.annotated ++ last.annotated :: ls)))
      (joinLines (l.bare :: (mid.map Line.bare ++
        (if ')' ∈ last.code then last.bare else last.closed) :: ls'))) := by
  have hcodes : ∀ first : Line, ')' ∉ first.code → ∀ m ∈ first :: mid, ')' ∉ m.code := by
    intro first hfirst m hm
    rcases List.mem_cons.1 hm with rfl | hm
    · exact hfirst
    · exact fun hmem => hmid m hm (List.mem_append_left _ hmem)
  rw [Line.joinLines_annotated, Line.joinLines_bare, List.flatMap_append, List.flatMap_append,
    List.flatMap_cons, List.flatMap_cons, List.cons_append, List.cons_append]
  -- the list is closed by code on its last line, or by a comment
  split
  · next hcode =>
    obtain ⟨q, after, heq, hq⟩ := List.eq_append_cons_of_mem hcode
    have hline : '\n' ∉ q := fun hmem => last.code_line (by simp [heq, hmem])
    have halike := h.readAlike_lines line hcomment hmid q q ⟨hline, hq⟩ ⟨hline, hq⟩
      (fun first _ => nameSpecifiers_annotated (first :: mid) (by simp) (by simp [hline]))
      (after ++ (last.comment ++ last.stop) ++ ls.flatMap ('\n' :: ·))
      (after ++ last.stop ++ ls'.flatMap ('\n' :: ·))
    simpa [Line.annotated, Line.bare, heq] using halike
  · next hcode =>
    have hclose : ')' ∈ last.comment := by
      simpa [Line.annotated, hcode, last.close_not_mem_stop] using hlast
    -- everything before the bracket is taken for names, the comment included
    obtain ⟨k, after, heq, hk, hkline⟩ := last.exists_comment_eq hclose
    have hnames : ∀ first : Line, ')' ∉ first.code → nameSpecifiers (joinLines
        ((first :: mid).map Line.annotated ++ [last.code ++ '#' :: k ++ [')']])) = nameSpecifiers
          (joinLines ((first :: mid).map Line.bare ++ [last.code ++ [')']])) := by
      intro first hfirst
      have := nameSpecifiers_closed (first :: mid) (k := k ++ [')']) (hcodes first hfirst)
        last.code_line hcode (by simp [hkline])
      simpa using this
    have halike := h.readAlike_lines line hcomment hmid (last.code ++ '#' :: k) last.code
      ⟨by simp [last.code_line, hkline], by simp [hcode, hk]⟩
      ⟨last.code_line, hcode⟩ hnames (after ++ last.stop ++ ls.flatMap ('\n' :: ·))
      (last.stop ++ ls'.flatMap ('\n' :: ·))
    simpa [Line.annotated, Line.closed, heq] using halike

/-- Of a list that is not closed, the first line is read alone. -/
theorem readAlike_unclosed (h : IsListStart l.code name behind inner) (line : Nat)
    (hcomment : ')' ∉ l.comment) {ls : List Line} (hls : ∀ m ∈ ls, ')' ∉ m.annotated) :
    ReadAlike (fromStatement none) selected line 0
      (joinLines (l.annotated :: ls.map Line.annotated))
      (joinLines (l.bare :: ls.map Line.bare)) := by
  have hclose : ∀ {tail}, ')' ∉ tail → ∀ inner',
      behind.dropWhile isBlank ++ tail = '(' :: inner' → ')' ∉ inner' := by
    intro tail htail inner' heq
    rw [h.list, List.cons_append] at heq
    rw [← (List.cons.inj heq).2]
    simp [h.open_end, htail]
  have hannotated : ')' ∉ (ls.map Line.annotated).flatMap ('\n' :: ·) := by simpa using hls
  have hbare : ')' ∉ (ls.map Line.bare).flatMap ('\n' :: ·) := by
    simpa using fun m hm => m.close_not_mem_bare (hls m hm)
  exact readAlike_line line h.head h.blank
    (hclose (by simp [hcomment, l.close_not_mem_stop, hannotated]))
    (hclose (by simp [l.close_not_mem_stop, hbare]))

/-- A list is read alike with and without comments, and so is what follows it if that holds of the
lines below. -/
theorem readLines_eq (h : IsListStart l.code name behind inner) (line : Nat) (ls : List Line)
    (ih : ∀ line rest, rest <:+ ls →
      readLines (fromStatement none) selected 0 line (rest.map Line.annotated) =
        readLines (fromStatement none) selected 0 line (withoutComments false rest)) :
    readLines (fromStatement none) selected 0 line ((l :: ls).map Line.annotated) =
      readLines (fromStatement none) selected 0 line (withoutComments false (l :: ls)) := by
  have hleaves : l.leavesOpen false = true := opensList_iff.2 ⟨name, behind, inner, h⟩
  have hnext := ih (line + 1) ls (List.suffix_refl ls)
  rw [List.map_cons, withoutComments, Line.closesList, hleaves, Bool.true_and]
  -- the comment of the first line may close the list itself
  split
  · next hcomment =>
    exact (h.readAlike_closed line (List.contains_iff_mem.1 hcomment) _ _).readLines_eq hnext
  · next hcomment =>
    rw [List.contains_iff_mem] at hcomment
    -- otherwise the first line below with a closing bracket does
    cases hfind : ls.find? (·.annotated.contains ')') with
    | none =>
      have hnone : ∀ m ∈ ls, ')' ∉ m.annotated := by
        simpa using List.find?_eq_none.1 hfind
      have hspared : ∀ isOpen, withoutComments isOpen ls = ls.map Line.bare := fun isOpen =>
        withoutComments_of_sparesLists (sparesLists_of_not_mem fun m hm hmem =>
          hnone m hm (by simp [Line.annotated, hmem]))
      rw [hspared] at hnext ⊢
      exact (h.readAlike_unclosed line hcomment hnone).readLines_eq hnext
    | some last =>
      obtain ⟨hlast, mid, rest, rfl, hmid⟩ := List.find?_eq_some_iff_append.1 hfind
      have hmid' : ∀ m ∈ mid, ')' ∉ m.annotated := by simpa using hmid
      have hlast' : ')' ∈ last.annotated := List.contains_iff_mem.1 hlast
      have hrest := ih (line + 1 + (mid.length + 1)) rest ⟨mid ++ [last], by simp⟩
      have hdrop : ∀ (f : Line → List Char) (x : List Char) (xs : List (List Char)),
          (mid.map f ++ x :: xs).drop (mid.length + 1) = xs := by
        intro f x xs
        rw [← List.drop_drop, List.drop_left' (by simp)]
        rfl
      rw [withoutComments_append hmid', withoutComments_cons_of_mem hlast', List.map_append,
        List.map_cons]
      exact (h.readAlike_list line hcomment hmid' hlast' _ _).readLines_eq
        (by rw [hdrop, hdrop, hrest])

end IsListStart

end Alike

/-- Imports from modules are read alike with and without comments. -/
theorem readLines_from (ls : List Line) (line : Nat) :
    readLines (fromStatement none) selected 0 line (ls.map Line.annotated) =
      readLines (fromStatement none) selected 0 line (withoutComments false ls) := by
  -- behind a list the run goes on in some later line, so the induction is on the number of lines
  induction hn : ls.length using Nat.strongRecOn generalizing ls line with
  | _ n ih =>
    cases ls with
    | nil => rfl
    | cons l ls =>
      have hlater : ∀ line rest, rest <:+ ls →
          readLines (fromStatement none) selected 0 line (rest.map Line.annotated) =
            readLines (fromStatement none) selected 0 line (withoutComments false rest) := by
        intro line rest hrest
        have hlength := hrest.length_le
        exact ih rest.length (by simp at hn; omega) rest line rfl
      by_cases hopens : opensList l.code = true
      · obtain ⟨name, behind, inner, h⟩ := opensList_iff.1 hopens
        exact h.readLines_eq line ls hlater
      · have hclosed : l.leavesOpen false = false := Bool.eq_false_iff.2 hopens
        rw [List.map_cons, withoutComments, Line.closesList, hclosed, Bool.false_and,
          if_neg Bool.false_ne_true]
        exact (readAlike_of_not_opens line hclosed _ _).readLines_eq
          (hlater (line + 1) ls (List.suffix_refl ls))

/-! ### Texts with and without comments -/

/-- The imports of a text are those of its code, when a comment that closes a list leaves its
bracket. So if no comment closes a list, comments make no difference at all. -/
theorem imports_scan_annotatedText (ls : List Line) :
    (scan (annotatedText ls)).imports =
        (scan (.ofList (joinLines (withoutComments false ls)))).imports ∧
      (sparesLists false ls = true →
        (scan (annotatedText ls)).imports = (scan (bareText ls)).imports) := by
  have hlaw : (scan (annotatedText ls)).imports =
      (scan (.ofList (joinLines (withoutComments false ls)))).imports := by
    have hlines : ∀ x ∈ ls.map Line.annotated, '\n' ∉ x :=
      List.forall_mem_map.2 fun l _ => l.newline_not_mem_annotated
    rw [annotatedText, imports_joinLines hlines,
      imports_joinLines (newline_not_mem_withoutComments false ls), readLines_import ls false,
      readLines_from]
  refine ⟨hlaw, fun hspared => ?_⟩
  rw [hlaw, withoutComments_of_sparesLists hspared]
  rfl

/-- Comments with quotes, commas, brackets and keywords, none of which closes the list. -/
def commentedList : List Line := [
  ⟨"from app import (  ".toList, "# the names".toList, false,
    by decide, by decide, by decide, by decide⟩,
  ⟨"    first as f,  ".toList, "# \"oldest\", (and best".toList, true,
    by decide, by decide, by decide, by decide⟩,
  ⟨"    second,  ".toList, "# import os".toList, false,
    by decide, by decide, by decide, by decide⟩,
  ⟨")  ".toList, "# done :)".toList, false, by decide, by decide, by decide, by decide⟩]

theorem imports_scan_commentedList : sparesLists false commentedList = true ∧
    (scan ("from app import (  # the names\n    first as f,  # \"oldest\", (and best\r\n" ++
        "    second,  # import os\n)  # done :)")).imports =
      (scan "from app import (  \n    first as f,  \r\n    second,  \n)  ").imports := by
  have hspared : sparesLists false commentedList = true := by decide
  exact ⟨hspared, (imports_scan_annotatedText commentedList).2 hspared⟩

/-- A closing bracket in a comment ends the list, and the names below it are lost. -/
theorem imports_scan_closing_comment :
    (scan "from app import (\n    first,  # the oldest (and best)\n    second,\n)\n").imports =
        [⟨"app", [.named "first" "first"], .static, 1⟩] ∧
      (scan "from app import (\n    first,  \n    second,\n)\n").imports =
        [⟨"app", [.named "first" "first", .named "second" "second"], .static, 1⟩] := by
  decide +kernel

end DeadCode.Python
