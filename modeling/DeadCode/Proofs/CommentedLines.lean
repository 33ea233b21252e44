import DeadCode.Proofs.PythonLines

/-!
# DeadCode.Proofs.CommentedLines

Lines of Python texts with comments behind their code, and the names that are listed on them. A
comment adds nothing to the names (`nameSpecifiers_annotated`, `nameSpecifiers_line`). Where a list
ends with a comment, it is as if it ended there with its closing bracket (`nameSpecifiers_closed`).
-/

namespace DeadCode.Text

variable {x y : List Char}

/-! ### Lines of a text -/

/-- A line without the carriage return at its end. -/
def withoutCarriage (cs : List Char) : List Char :=
  if cs.getLast? = some '\r' then cs.dropLast else cs

theorem withoutCarriage_append_carriage (cs : List Char) :
    withoutCarriage (cs ++ ['\r']) = cs := by
  simp [withoutCarriage]

theorem exists_withoutCarriage_append (cs : List Char) (c : Char) (rest : List Char)
    (hc : c ≠ '\r') : ∃ rest', withoutCarriage (cs ++ c :: rest) = cs ++ c :: rest' := by
  rcases List.eq_nil_or_concat' rest with rfl | ⟨init, d, rfl⟩
  · exact ⟨[], by simp [withoutCarriage, hc]⟩
  · rw [← List.cons_append, ← List.append_assoc, withoutCarriage]
    split
    · exact ⟨init, by rw [List.dropLast_concat]⟩
    · exact ⟨init ++ [d], by simp⟩

/-- The first line ends at the first line feed, without the carriage return before it. -/
theorem lines_append_newline (hx : '\n' ∉ x) (rest : List Char) :
    lines (x ++ '\n' :: rest) = withoutCarriage x :: lines rest := by
  induction x with
  | nil => rfl
  | cons c x ih =>
    rw [List.mem_cons, not_or] at hx
    by_cases hend : c = '\r' ∧ x = []
    · obtain ⟨rfl, rfl⟩ := hend
      rfl
    · have hlines : lines (c :: (x ++ '\n' :: rest)) = (c :: withoutCarriage x) :: lines rest := by
        rw [lines, ih hx.2]
        · exact fun hc => hx.1 hc.symm
        · rintro more hc hmore
          cases x with
          | nil => exact hend ⟨hc, rfl⟩
          | cons d x => exact hx.2 ((List.cons.inj hmore).1 ▸ List.mem_cons_self)
      rw [List.cons_append, hlines]
      cases x with
      | nil => simp_all [withoutCarriage]
      | cons d x => simp [withoutCarriage]; split <;> rfl

/-- A text without line feeds is one line. -/
theorem lines_of_not_mem (hne : x ≠ []) (hx : '\n' ∉ x) : lines x = [x] := by
  fun_induction lines x with
  | case1 => exact absurd rfl hne
  | case2 => exact absurd List.mem_cons_self hx
  | case3 => simp at hx
  | case4 c cs _ _ line others hlines ih =>
    rw [ih ?_ fun h => hx (.tail _ h)] at hlines
    · obtain ⟨rfl, rfl⟩ := List.cons.inj hlines
      rfl
    · rintro rfl
      cases hlines
  | case5 c cs _ _ hlines ih =>
    by_cases hcs : cs = []
    · rw [hcs]
    · rw [ih hcs fun h => hx (.tail _ h)] at hlines
      cases hlines

/-- Lines that are joined are found again, but for the carriage returns at their ends. -/
theorem lines_joinLines {xs : List (List Char)} (hxs : ∀ x ∈ xs, '\n' ∉ x) (hne : x ≠ [])
    (hx : '\n' ∉ x) : lines (joinLines (xs ++ [x])) = xs.map withoutCarriage ++ [x] := by
  induction xs with
  | nil => exact lines_of_not_mem hne hx
  | cons y xs ih =>
    rw [List.cons_append, joinLines_cons_of_ne_nil y (by simp),
      lines_append_newline (hxs y List.mem_cons_self), ih fun z hz => hxs z (.tail _ hz)]
    rfl

/-! ### Space at the end of a text -/

theorem dropEndWhile_append {p : Char → Bool} (hy : ∀ c ∈ y, p c = true) :
    dropEndWhile p (x ++ y) = dropEndWhile p x := by
  rw [dropEndWhile, List.reverse_append,
    List.dropWhile_append_of_pos fun c hc => hy c (List.mem_reverse.1 hc)]
  rfl

/-- Space behind a text is trimmed. -/
theorem trim_append_space (hy : ∀ c ∈ y, isSpace c = true) : trim (x ++ y) = trim x := by
  rw [trim, trim, trimWhile, trimWhile, List.dropWhile_append]
  split
  · next hempty =>
    rw [List.isEmpty_iff.1 hempty, List.dropWhile_eq_nil_iff.2 hy]
  · exact dropEndWhile_append hy

theorem joinWith_concat_append (sep : List Char) (xs : List (List Char)) (x y : List Char) :
    joinWith sep (xs ++ [x ++ y]) = joinWith sep (xs ++ [x]) ++ y := by
  cases xs with
  | nil => rfl
  | cons first xs =>
    rw [List.cons_append, List.cons_append, joinWith_cons, joinWith_cons]
    simp

end DeadCode.Text

namespace DeadCode.Python

open Text

/-! ### Lines with comments -/

/-- A line of a text. -/
structure Line where
  code : List Char
  /-- The comment behind the code, with its number sign; empty if there is none. -/
  comment : List Char
  /-- Whether the line end has a carriage return before its line feed. -/
  carriage : Bool
  code_line : '\n' ∉ code
  comment_line : '\n' ∉ comment
  comment_start : comment.head?.all (· == '#') = true
  /-- A carriage return before a comment is code, so it is none of a line end. -/
  code_end : carriage = true ∨ comment = [] ∨ code.getLast? ≠ some '\r'

namespace Line

/-- What stands before the line feed at the end of the line. -/
def stop (l : Line) : List Char := if l.carriage then ['\r'] else []

/-- The line as it is written. -/
def annotated (l : Line) : List Char := l.code ++ (l.comment ++ l.stop)

/-- The line without its comment. -/
def bare (l : Line) : List Char := l.code ++ l.stop

theorem comment_eq (l : Line) : l.comment = [] ∨ ∃ k, l.comment = '#' :: k := by
  have hstart := l.comment_start
  cases hcomment : l.comment with
  | nil => exact .inl rfl
  | cons c k =>
    rw [hcomment] at hstart
    obtain rfl : c = '#' := by simpa using hstart
    exact .inr ⟨k, rfl⟩

/-- A comment with a closing bracket, up to the first one. -/
theorem exists_comment_eq (l : Line) (h : ')' ∈ l.comment) : ∃ k after,
    l.comment = '#' :: k ++ ')' :: after ∧ ')' ∉ '#' :: k ∧ '\n' ∉ k := by
  have hline := l.comment_line
  obtain ⟨before, after, hcomment, hbefore⟩ := List.eq_append_cons_of_mem h
  rcases l.comment_eq with hnil | ⟨k, hk⟩
  · simp [hnil] at h
  · cases before with
    | nil => simp [hk] at hcomment
    | cons c k =>
      rw [hcomment] at hk hline
      obtain ⟨rfl, -⟩ := List.cons.inj hk
      exact ⟨k, after, hcomment, hbefore, fun hmem => hline (by simp [hmem])⟩

theorem eq_of_mem_stop (l : Line) {c : Char} (h : c ∈ l.stop) : c = '\r' := by
  unfold stop at h
  split at h
  · exact List.mem_singleton.1 h
  · cases h

theorem newline_not_mem_stop (l : Line) : '\n' ∉ l.stop := fun h => by
  cases l.eq_of_mem_stop h

theorem close_not_mem_stop (l : Line) : ')' ∉ l.stop := fun h => by
  cases l.eq_of_mem_stop h

theorem newline_not_mem_annotated (l : Line) : '\n' ∉ l.annotated := by
  simp [annotated, l.code_line, l.comment_line, l.newline_not_mem_stop]

theorem newline_not_mem_bare (l : Line) : '\n' ∉ l.bare := by
  simp [bare, l.code_line, l.newline_not_mem_stop]

theorem close_not_mem_bare (l : Line) (h : ')' ∉ l.annotated) : ')' ∉ l.bare := by
  simp_all [annotated, bare]

/-- The line from some place in its code on. -/
def behind (l : Line) {code : List Char} (hne : code ≠ []) (h : code <:+ l.code) : Line where
  code := code
  comment := l.comment
  carriage := l.carriage
  code_line hmem := l.code_line (h.subset hmem)
  comment_line := l.comment_line
  comment_start := l.comment_start
  code_end := l.code_end.imp_right (Or.imp_right fun hend => by
    obtain ⟨before, hcode⟩ := h
    rwa [← hcode, List.getLast?_append, Option.or_of_isSome (List.getLast?_isSome.2 hne)] at hend)

end Line

/-! ### What a line adds to a list -/

/-- The part of a line before its comment. -/
def uncommented (cs : List Char) : List Char := cs.takeWhile (· ≠ '#')

/-- The names on one line without brackets. -/
def withoutBrackets (cs : List Char) : List Char :=
  dropEndWhile (· == ')') ((trim cs).dropWhile (· == '('))

/-- The names of a list over several lines are those of its lines without their comments. -/
theorem plainNames_joinLines {xs : List (List Char)} {x : List Char} (hxs : ∀ y ∈ xs, '\n' ∉ y)
    (hne : x ≠ []) (hx : '\n' ∉ x) : plainNames (joinLines (xs ++ [x])) = withoutBrackets
      (joinWith [' '] (xs.map (uncommented ∘ withoutCarriage) ++ [uncommented x])) := by
  have hlines := lines_joinLines hxs hne hx
  rw [plainNames, hlines, List.map_append, List.map_map]
  rfl

/-- What a line adds to a list of names. -/
def Line.content (l : Line) : List Char := uncommented (withoutCarriage l.bare)

/-- A comment adds nothing to a list of names. -/
theorem Line.uncommented_annotated (l : Line) :
    uncommented (withoutCarriage l.annotated) = l.content := by
  rcases l.comment_eq with hnil | ⟨k, hk⟩
  · simp [annotated, content, bare, hnil]
  · have hcode : ∀ k, uncommented (l.code ++ '#' :: k) = uncommented l.code := fun k =>
      takeWhile_append_stops (stops_cons.2 (by simp))
    cases hcarriage : l.carriage with
    | true =>
      have hannotated : l.annotated = l.code ++ '#' :: k ++ ['\r'] := by
        simp [annotated, stop, hk, hcarriage]
      have hbare : l.bare = l.code ++ ['\r'] := by simp [bare, stop, hcarriage]
      rw [content, hannotated, hbare, withoutCarriage_append_carriage,
        withoutCarriage_append_carriage, hcode]
    | false =>
      have hannotated : l.annotated = l.code ++ '#' :: k := by
        simp [annotated, stop, hk, hcarriage]
      have hbare : l.bare = l.code := by simp [bare, stop, hcarriage]
      have hend : l.code.getLast? ≠ some '\r' := by simpa [hcarriage, hk] using l.code_end
      obtain ⟨k', hk'⟩ := exists_withoutCarriage_append l.code '#' k (by decide)
      rw [content, hannotated, hbare, hk', hcode, withoutCarriage, if_neg hend]

/-- What is read of a line stands in its code, a carriage return apart. -/
theorem Line.mem_code_of_mem_content (l : Line) {c : Char} (hc : c ≠ '\r') (h : c ∈ l.content) :
    c ∈ l.code := by
  have hline : c ∈ withoutCarriage l.bare := (List.takeWhile_sublist _).mem h
  have hbare : c ∈ l.bare := by
    unfold withoutCarriage at hline
    split at hline
    · exact (List.dropLast_sublist _).mem hline
    · exact hline
  rcases List.mem_append.1 hbare with hcode | hstop
  · exact hcode
  · exact absurd (l.eq_of_mem_stop hstop) hc

/-! ### The items of a list -/

section Names

variable {cs x y : List Char}

/-- The items of a list of names, without the space around them. -/
def listItems (cs : List Char) : List (List Char) :=
  (splitOn ',' cs).map fun item => trim (dropEndWhile (· == '\\') (trim item))

theorem nameSpecifiers_eq_listItems (names : List Char) : nameSpecifiers names =
    ((listItems (plainNames names)).filter (!·.isEmpty)).map nameSpecifier := rfl

/-- Space behind a list adds no item to it. -/
theorem listItems_append_space (hy : ∀ c ∈ y, isSpace c = true) :
    listItems (x ++ y) = listItems x := by
  induction hn : x.length using Nat.strongRecOn generalizing x with
  | _ n ih =>
    by_cases hcomma : ',' ∈ x
    · obtain ⟨as, bs, rfl, has⟩ := List.eq_append_cons_of_mem hcomma
      have hbs := ih bs.length (by simp at hn; omega) rfl
      rw [listItems] at hbs
      rw [List.append_assoc, List.cons_append, listItems, listItems, splitOn_append_cons,
        splitOn_append_cons, List.map_append, List.map_append, hbs]
      rfl
    · have hcomma' : ',' ∉ x ++ y := fun hmem => by
        rcases List.mem_append.1 hmem with hmem | hmem
        · exact hcomma hmem
        · cases hy _ hmem
      rw [listItems, listItems, splitOn_of_not_mem hcomma, splitOn_of_not_mem hcomma',
        List.map_singleton, List.map_singleton, trim_append_space hy]

theorem trim_close (cs : List Char) : trim (cs ++ [')']) = cs.dropWhile isSpace ++ [')'] := by
  have hstart : (cs ++ [')']).dropWhile isSpace = cs.dropWhile isSpace ++ [')'] :=
    dropWhile_append_stops (stops_cons.2 rfl)
  have hend : Stops isSpace (cs.dropWhile isSpace ++ [')']).reverse := by
    rw [List.reverse_append]
    exact stops_cons.2 rfl
  rw [trim, trimWhile, hstart]
  simpa using dropEndWhile_append_of_stops hend (List.forall_mem_nil _)

/-- A closing bracket behind a list that has none adds nothing to its items. -/
theorem listItems_close (h : ')' ∉ cs) :
    listItems (withoutBrackets (cs ++ [')'])) = listItems (withoutBrackets cs) := by
  -- the bracket keeps the space at the end of the list, and then it is dropped
  obtain ⟨space, hspace, hnames⟩ : ∃ space : List Char, (∀ c ∈ space, isSpace c = true) ∧
      trim cs ++ space = cs.dropWhile isSpace :=
    ⟨_, fun c hc => List.mem_takeWhile_imp (List.mem_reverse.1 hc),
      dropEndWhile_append_takeWhile isSpace (cs.dropWhile isSpace)⟩
  have hopen : (cs.dropWhile isSpace).dropWhile (· == '(') =
      (trim cs).dropWhile (· == '(') ++ space := by
    rw [← hnames]
    refine dropWhile_append_stops (stops_of_forall fun c hc => beq_false_of_ne ?_)
    rintro rfl
    cases hspace _ hc
  have hkept : ∀ c ∈ (trim cs).dropWhile (· == '(') ++ space, (c == ')') = false := by
    intro c hc
    rw [← hopen] at hc
    refine beq_false_of_ne fun heq => h ?_
    exact heq ▸ (List.dropWhile_sublist _).mem ((List.dropWhile_sublist _).mem hc)
  have hclosed : withoutBrackets (cs ++ [')']) = (trim cs).dropWhile (· == '(') ++ space := by
    have hdrop : ((cs.dropWhile isSpace) ++ [')']).dropWhile (· == '(') =
        (cs.dropWhile isSpace).dropWhile (· == '(') ++ [')'] :=
      dropWhile_append_stops (stops_cons.2 rfl)
    rw [withoutBrackets, trim_close, hdrop, hopen]
    exact (dropEndWhile_append (by simp)).trans (dropEndWhile_of_forall hkept)
  have hbare : withoutBrackets cs = (trim cs).dropWhile (· == '(') :=
    dropEndWhile_of_forall fun c hc => hkept c (List.mem_append_left _ hc)
  rw [hclosed, hbare, listItems_append_space hspace]

/-! ### Names with and without comments -/

/-- The code of lines, put together with spaces. -/
theorem plainNames_annotated (ls : List Line) (hne : x ≠ []) (hx : '\n' ∉ x) :
    plainNames (joinLines (ls.map Line.annotated ++ [x])) =
        withoutBrackets (joinWith [' '] (ls.map Line.content ++ [uncommented x])) ∧
      plainNames (joinLines (ls.map Line.bare ++ [x])) =
        withoutBrackets (joinWith [' '] (ls.map Line.content ++ [uncommented x])) := by
  have hannotated : ∀ y ∈ ls.map Line.annotated, '\n' ∉ y :=
    List.forall_mem_map.2 fun l _ => l.newline_not_mem_annotated
  have hbare : ∀ y ∈ ls.map Line.bare, '\n' ∉ y :=
    List.forall_mem_map.2 fun l _ => l.newline_not_mem_bare
  constructor
  · rw [plainNames_joinLines hannotated hne hx, List.map_map,
      List.map_congr_left fun l _ => l.uncommented_annotated]
  · rw [plainNames_joinLines hbare hne hx, List.map_map]
    rfl

/-- The comments behind full lines of a list make no difference to its names. -/
theorem nameSpecifiers_annotated (ls : List Line) (hne : x ≠ []) (hx : '\n' ∉ x) :
    nameSpecifiers (joinLines (ls.map Line.annotated ++ [x])) =
      nameSpecifiers (joinLines (ls.map Line.bare ++ [x])) := by
  obtain ⟨hannotated, hbare⟩ := plainNames_annotated ls hne hx
  rw [nameSpecifiers_eq_listItems, nameSpecifiers_eq_listItems, hannotated, hbare]

/-- Where a comment closes the list, its bracket stands for it. -/
theorem nameSpecifiers_closed (ls : List Line) {k : List Char} (hls : ∀ l ∈ ls, ')' ∉ l.code)
    (hx : '\n' ∉ x) (hclose : ')' ∉ x) (hk : '\n' ∉ k) :
    nameSpecifiers (joinLines (ls.map Line.annotated ++ [x ++ '#' :: k])) =
      nameSpecifiers (joinLines (ls.map Line.bare ++ [x ++ [')']])) := by
  have hcommented : uncommented (x ++ '#' :: k) = uncommented x :=
    takeWhile_append_stops (stops_cons.2 (by simp))
  have hannotated := (plainNames_annotated ls (x := x ++ '#' :: k) (by simp) (by simp [hx, hk])).1
  have hbare := (plainNames_annotated ls (x := x ++ [')']) (by simp) (by simp [hx])).2
  rw [hcommented] at hannotated
  rw [nameSpecifiers_eq_listItems, nameSpecifiers_eq_listItems, hannotated, hbare]
  -- the names may have a comment of their own before the bracket
  by_cases hmem : '#' ∈ x
  · obtain ⟨as, bs, rfl, -⟩ := List.eq_append_cons_of_mem hmem
    have hstops : ∀ bs, uncommented (as ++ '#' :: bs) = uncommented as := fun bs =>
      takeWhile_append_stops (stops_cons.2 (by simp))
    rw [List.append_assoc, List.cons_append, hstops, hstops]
  -- otherwise the bracket is the first one, and it is dropped from the last item
  · have hself : ∀ {y}, '#' ∉ y → uncommented y = y := fun hy =>
      List.takeWhile_eq_self_iff.2 fun c hc => decide_eq_true fun h => hy (h ▸ hc)
    have hnot : ')' ∉ joinWith [' '] (ls.map Line.content ++ [x]) := by
      intro hjoined
      rcases mem_joinWith hjoined with heq | ⟨piece, hpiece, hmem⟩
      · cases heq
      rcases List.mem_append.1 hpiece with hpiece | hpiece
      · obtain ⟨l, hl, rfl⟩ := List.mem_map.1 hpiece
        exact hls l hl (l.mem_code_of_mem_content (by decide) hmem)
      · exact hclose (List.mem_singleton.1 hpiece ▸ hmem)
    rw [hself hmem, hself (by simp [hmem]), joinWith_concat_append, listItems_close hnot]

/-- A carriage return behind the names on a line makes no difference to them. -/
theorem nameSpecifiers_stop (l : Line) (hx : '\n' ∉ x) :
    nameSpecifiers ((x ++ l.stop).takeWhile isNameList) =
      nameSpecifiers (x.takeWhile isNameList) := by
  have hplain : ∀ y, '\n' ∉ y → '#' ∉ y → plainNames y = withoutBrackets y := by
    intro y hline hcomment
    by_cases hne : y = []
    · subst hne
      rfl
    · have hjoined := plainNames_joinLines (List.forall_mem_nil _) hne hline
      have hself : uncommented y = y :=
        List.takeWhile_eq_self_iff.2 fun c hc => decide_eq_true fun h => hcomment (h ▸ hc)
      rwa [List.map_nil, List.nil_append, hself] at hjoined
  have hspace : ∀ c ∈ l.stop, isSpace c = true := fun c hc => l.eq_of_mem_stop hc ▸ rfl
  rw [List.takeWhile_append]
  -- a carriage return behind names is a blank, and behind anything else it is not read
  split
  · next hall =>
    have hself : x.takeWhile isNameList = x :=
      (List.takeWhile_prefix _).eq_of_length hall
    have hparts : ∀ c ∈ x, isNameList c = true := List.takeWhile_eq_self_iff.1 hself
    have hcomment : '#' ∉ x := fun hmem => by cases hparts _ hmem
    have hstop : l.stop.takeWhile isNameList = l.stop :=
      List.takeWhile_eq_self_iff.2 fun c hc => l.eq_of_mem_stop hc ▸ rfl
    have hcomment' : '#' ∉ l.stop := fun hmem => by cases l.eq_of_mem_stop hmem
    rw [hself, hstop, nameSpecifiers_eq_listItems, nameSpecifiers_eq_listItems,
      hplain x hx hcomment, hplain (x ++ l.stop) (by simp [hx, l.newline_not_mem_stop])
        (by simp [hcomment, hcomment']), withoutBrackets, withoutBrackets, trim_append_space hspace]
  · rfl

/-- The comment behind names on a line makes no difference to them. -/
theorem nameSpecifiers_line (l : Line) (hx : '\n' ∉ x) {rest rest' : List Char}
    (hrest : Stops (· != '\n') rest) (hrest' : Stops (· != '\n') rest') :
    nameSpecifiers ((x ++ (l.comment ++ l.stop ++ rest)).takeWhile isNameList) =
      nameSpecifiers ((x ++ (l.stop ++ rest')).takeWhile isNameList) := by
  have hstops : ∀ {rest}, Stops (· != '\n') rest → Stops isNameList rest := fun h c hc => by
    have := h c hc
    simp_all [isNameList]
  have hbare : ∀ {rest}, Stops (· != '\n') rest →
      nameSpecifiers ((x ++ (l.stop ++ rest)).takeWhile isNameList) =
        nameSpecifiers (x.takeWhile isNameList) := fun h => by
    rw [← List.append_assoc, takeWhile_append_stops (hstops h), nameSpecifiers_stop l hx]
  rw [hbare hrest']
  rcases l.comment_eq with hnil | ⟨k, hk⟩
  · rw [hnil, List.nil_append, hbare hrest]
  · rw [hk, List.append_assoc, List.cons_append, takeWhile_append_stops (stops_cons.2 rfl)]

end Names

end DeadCode.Python
