import DeadCode.Text.Space
import DeadCode.Proofs.CleanPath
import Mathlib.Data.List.TakeWhile

/-!
# DeadCode.Proofs.Words

Lists of words with commas between them. What counts in such a text are the words of its pieces
(`listedWords`): how much space there is between them and whether it goes over several lines makes
no difference (`SameWords`).
-/

namespace DeadCode.Text

variable {as bs cs xs ys token rest : List Char} {c : Char} {p : Char → Bool}

/-! ### Words -/

theorem splitWhere_append_of_not {piece : List Char} {pieces : List (List Char)}
    (has : ∀ x ∈ as, p x = false) (h : splitWhere p rest = piece :: pieces) :
    splitWhere p (as ++ rest) = (as ++ piece) :: pieces := by
  induction as with
  | nil => exact h
  | cons x as ih =>
    rw [List.cons_append, splitWhere, if_neg (by simp [has x List.mem_cons_self]),
      ih fun y hy => has y (.tail _ hy)]
    rfl

theorem splitWhere_cons_of_pos (h : p c = true) :
    splitWhere p (c :: cs) = [] :: splitWhere p cs := by
  rw [splitWhere, if_pos h]

@[simp]
theorem words_nil : words [] = [] := rfl

theorem words_cons_space (h : isSpace c = true) : words (c :: cs) = words cs := by
  rw [words, splitWhere_cons_of_pos h]
  rfl

/-- A text without space is a word, if space or the end follows. -/
theorem words_append_of_stops (hne : token ≠ []) (htoken : ∀ x ∈ token, isSpace x = false)
    (hrest : Stops (!isSpace ·) rest) : words (token ++ rest) = token :: words rest := by
  have hpiece : ∃ pieces, splitWhere isSpace rest = [] :: pieces := by
    cases rest with
    | nil => exact ⟨[], rfl⟩
    | cons c rest => exact ⟨_, splitWhere_cons_of_pos (by simpa using stops_cons.1 hrest)⟩
  obtain ⟨pieces, hpieces⟩ := hpiece
  rw [words, words, splitWhere_append_of_not htoken hpieces, hpieces, List.append_nil]
  simp [hne]

theorem isSpace_of_words_eq_nil (h : words cs = []) : ∀ c ∈ cs, isSpace c = true := by
  induction cs with
  | nil => simp
  | cons c cs ih =>
    by_cases hc : isSpace c = true
    · rw [words_cons_space hc] at h
      exact List.forall_mem_cons.2 ⟨hc, ih h⟩
    · rw [words, splitWhere, if_neg hc] at h
      split at h
      · simp at h
      · simp at h

/-! ### Words between commas -/

/-- The words of each piece between commas. -/
def listedWords (cs : List Char) : List (List (List Char)) := (splitOn ',' cs).map words

/-- Whether `c` ends a word of a list. -/
def isBreak (c : Char) : Bool := isSpace c || c == ','

@[simp]
theorem listedWords_nil : listedWords [] = [[]] := rfl

@[simp]
theorem listedWords_comma (cs : List Char) : listedWords (',' :: cs) = [] :: listedWords cs := rfl

theorem listedWords_ne_nil (cs : List Char) : listedWords cs ≠ [] := by
  simp [listedWords, splitOn_ne_nil]

theorem listedWords_space (h : isSpace c = true) : listedWords (c :: cs) = listedWords cs := by
  have hc : ¬ (c == ',') = true := fun hc => by
    rw [beq_iff_eq.1 hc] at h
    cases h
  obtain ⟨piece, pieces, hpieces⟩ := List.exists_cons_of_ne_nil (splitOn_ne_nil ',' cs)
  rw [splitOn] at hpieces
  rw [listedWords, listedWords, splitOn, splitOn, splitWhere, if_neg hc, hpieces, List.map_cons,
    List.map_cons, words_cons_space h]

theorem listedWords_append_space (has : ∀ x ∈ as, isSpace x = true) :
    listedWords (as ++ cs) = listedWords cs := by
  induction as with
  | nil => rfl
  | cons x as ih =>
    rw [List.cons_append, listedWords_space (has x List.mem_cons_self),
      ih fun y hy => has y (.tail _ hy)]

/-- Where a word has ended, no piece goes on with it. -/
theorem exists_splitOn_of_break (hrest : Stops (!isBreak ·) rest) :
    ∃ piece pieces, splitOn ',' rest = piece :: pieces ∧ Stops (!isSpace ·) piece := by
  cases rest with
  | nil => exact ⟨[], [], rfl, stops_nil⟩
  | cons c rest =>
    by_cases hcomma : c = ','
    · subst hcomma
      exact ⟨[], _, rfl, stops_nil⟩
    · have hspace : isSpace c = true := by simpa [stops_cons, isBreak, hcomma] using hrest
      obtain ⟨piece, pieces, hpieces⟩ := List.exists_cons_of_ne_nil (splitOn_ne_nil ',' rest)
      refine ⟨c :: piece, pieces, ?_, by simp [stops_cons, hspace]⟩
      have hc : ∀ x ∈ [c], (x == ',') = false := by simpa using hcomma
      exact splitWhere_append_of_not hc hpieces

/-- A word that a break ends is the first word of its item. -/
theorem listedWords_word {first : List (List Char)} {others : List (List (List Char))}
    (hne : token ≠ []) (htoken : ∀ x ∈ token, isBreak x = false) (hrest : Stops (!isBreak ·) rest)
    (h : listedWords rest = first :: others) :
    listedWords (token ++ rest) = (token :: first) :: others := by
  have hparts : ∀ x ∈ token, isSpace x = false ∧ (x == ',') = false :=
    fun x hx => Bool.or_eq_false_iff.1 (htoken x hx)
  obtain ⟨piece, pieces, hpieces, hpiece⟩ := exists_splitOn_of_break hrest
  rw [listedWords, hpieces, List.map_cons] at h
  obtain ⟨rfl, rfl⟩ := List.cons.inj h
  have hsplit : splitOn ',' (token ++ rest) = (token ++ piece) :: pieces :=
    splitWhere_append_of_not (fun x hx => (hparts x hx).2) hpieces
  rw [listedWords, hsplit, List.map_cons,
    words_append_of_stops hne (fun x hx => (hparts x hx).1) hpiece]

/-- The texts have the same words, whatever word they go on with. -/
def SameWords (xs ys : List Char) : Prop :=
  ∀ token, (∀ x ∈ token, isBreak x = false) → listedWords (token ++ xs) = listedWords (token ++ ys)

namespace SameWords

theorem refl (xs : List Char) : SameWords xs xs := fun _ _ => rfl

theorem listedWords_eq (h : SameWords xs ys) : listedWords xs = listedWords ys := h [] (by simp)

/-- Behind the end of a word it only matters which words follow. -/
theorem of_break (hxs : Stops (!isBreak ·) xs) (hys : Stops (!isBreak ·) ys)
    (h : listedWords xs = listedWords ys) : SameWords xs ys := by
  intro token htoken
  by_cases hne : token = []
  · rw [hne]
    exact h
  · obtain ⟨first, others, hfirst⟩ := List.exists_cons_of_ne_nil (listedWords_ne_nil xs)
    rw [listedWords_word hne htoken hxs hfirst, listedWords_word hne htoken hys (h ▸ hfirst)]

theorem cons (c : Char) (h : SameWords xs ys) : SameWords (c :: xs) (c :: ys) := by
  by_cases hspace : isSpace c = true
  · refine .of_break ?_ ?_ ?_
    · simp [stops_cons, isBreak, hspace]
    · simp [stops_cons, isBreak, hspace]
    · rw [listedWords_space hspace, listedWords_space hspace, h.listedWords_eq]
  by_cases hcomma : c = ','
  · subst hcomma
    refine .of_break (stops_cons.2 rfl) (stops_cons.2 rfl) ?_
    rw [listedWords_comma, listedWords_comma, h.listedWords_eq]
  intro token htoken
  have hc : isBreak c = false := by simp [isBreak, hspace, hcomma]
  have := h (token ++ [c]) (by simpa [or_imp, forall_and, hc] using htoken)
  simpa using this

theorem append_left (as : List Char) (h : SameWords xs ys) : SameWords (as ++ xs) (as ++ ys) := by
  induction as with
  | nil => exact h
  | cons a as ih => exact ih.cons a

/-- Space at the end adds no word. -/
theorem append_space (hbs : ∀ x ∈ bs, isSpace x = true) : SameWords (as ++ bs) as := by
  have hend : SameWords bs [] := by
    refine .of_break (stops_of_forall fun x hx => ?_) stops_nil ?_
    · simp [isBreak, hbs x hx]
    · simpa using (listedWords_append_space hbs : listedWords (bs ++ []) = _)
  simpa using hend.append_left as

end SameWords

theorem mem_of_mem_trim (h : c ∈ trim cs) : c ∈ cs := by
  have hend := (List.dropWhile_sublist _).mem (List.mem_reverse.1 h)
  exact (List.dropWhile_sublist _).mem (List.mem_reverse.1 hend)

theorem listedWords_trim (cs : List Char) : listedWords (trim cs) = listedWords cs := by
  have hend : ∀ x ∈ ((cs.dropWhile isSpace).reverse.takeWhile isSpace).reverse, isSpace x = true :=
    fun x hx => List.mem_takeWhile_imp (List.mem_reverse.1 hx)
  calc listedWords (trim cs)
    _ = listedWords (cs.dropWhile isSpace) := by
      rw [trim, trimWhile, ← (SameWords.append_space hend).listedWords_eq,
        dropEndWhile_append_takeWhile]
    _ = listedWords (cs.takeWhile isSpace ++ cs.dropWhile isSpace) :=
      (listedWords_append_space fun _ => List.mem_takeWhile_imp).symm
    _ = listedWords cs := by rw [List.takeWhile_append_dropWhile]

theorem words_trim (hcs : ',' ∉ cs) : words (trim cs) = words cs := by
  have htrim : ',' ∉ trim cs := fun h => hcs (mem_of_mem_trim h)
  have := listedWords_trim cs
  rw [listedWords, listedWords, splitOn_of_not_mem hcs, splitOn_of_not_mem htrim] at this
  exact (List.cons.inj this).1

theorem trim_eq_nil_iff (hcs : ',' ∉ cs) : trim cs = [] ↔ words cs = [] := by
  constructor
  · intro h
    rw [← words_trim hcs, h, words_nil]
  · intro h
    rw [trim, trimWhile, List.dropWhile_eq_nil_iff.2 (isSpace_of_words_eq_nil h)]
    rfl

/-! ### Lines put together -/

/-- The text on one line: each line end is a space. -/
def onOneLine : List Char → List Char
  | [] => []
  | '\n' :: cs => ' ' :: onOneLine cs
  | '\r' :: '\n' :: cs => ' ' :: onOneLine cs
  | c :: cs => c :: onOneLine cs

/-- Joining lines changes blanks only. -/
theorem sameWords_onOneLine (cs : List Char) : SameWords (onOneLine cs) cs := by
  fun_induction onOneLine cs with
  | case1 => exact .refl _
  | case2 cs ih =>
    refine .of_break (stops_cons.2 rfl) (stops_cons.2 rfl) ?_
    rw [listedWords_space rfl, listedWords_space rfl, ih.listedWords_eq]
  | case3 cs ih =>
    refine .of_break (stops_cons.2 rfl) (stops_cons.2 rfl) ?_
    rw [listedWords_space rfl, listedWords_space rfl, listedWords_space rfl, ih.listedWords_eq]
  | case4 c cs _ _ ih => exact ih.cons c

theorem onOneLine_of_not_mem (h : '\n' ∉ cs) : onOneLine cs = cs := by
  fun_induction onOneLine cs with
  | case1 => rfl
  | case2 cs ih => simp at h
  | case3 cs ih => simp at h
  | case4 c cs _ _ ih => rw [ih fun hcs => h (.tail _ hcs)]

theorem mem_onOneLine (h : c ∈ onOneLine cs) : c ∈ cs ∨ c = ' ' := by
  fun_induction onOneLine cs with
  | case1 => cases h
  | case2 cs ih => grind
  | case3 cs ih => grind
  | case4 x cs _ _ ih => grind

theorem lines_ne_nil (hne : cs ≠ []) : lines cs ≠ [] := by
  fun_cases lines cs with
  | case1 => exact absurd rfl hne
  | case2 => simp
  | case3 => simp
  | case4 => simp
  | case5 => simp

/-- The lines of a text that ends within a line, put together with spaces. -/
theorem joinWith_lines (h : c ≠ '\n') (cs : List Char) :
    joinWith [' '] (lines (cs ++ [c])) = onOneLine cs ++ [c] := by
  have hlines : ∀ ls, ∃ line others, lines (ls ++ [c]) = line :: others := fun ls =>
    List.exists_cons_of_ne_nil (lines_ne_nil (by simp))
  have hjoin : ∀ ls, joinWith [' '] ([] :: lines (ls ++ [c])) =
      ' ' :: joinWith [' '] (lines (ls ++ [c])) := fun ls => by
    obtain ⟨line, others, hls⟩ := hlines ls
    rw [hls]
    rfl
  -- a line end becomes a blank, with or without a carriage return
  fun_induction onOneLine cs with
  | case1 =>
    rw [List.nil_append, lines]
    · rfl
    · exact h
    · simp
  | case2 cs ih => rw [List.cons_append, lines, hjoin, ih, List.cons_append]
  | case3 cs ih => rw [List.cons_append, List.cons_append, lines, hjoin, ih, List.cons_append]
  | case4 x cs hx hreturn ih =>
    obtain ⟨line, others, hls⟩ := hlines cs
    have hcons : lines (x :: (cs ++ [c])) = (x :: line) :: others := by
      rw [lines, hls]
      · exact hx
      · intro ds hx hds
        cases cs with
        | nil => exact h (List.cons.inj hds).1
        | cons d cs => exact hreturn cs hx (by rw [(List.cons.inj hds).1])
    rw [List.cons_append, hcons, List.cons_append, ← ih, hls]
    cases others with
    | nil => rfl
    | cons other others => rfl

theorem mem_of_mem_lines {line : List Char} (h : line ∈ lines cs) (hc : c ∈ line) : c ∈ cs := by
  fun_induction lines cs generalizing line with
  | case1 => cases h
  | case2 cs ih => grind
  | case3 cs ih => grind
  | case4 x cs _ _ first others hlines ih => grind
  | case5 x cs _ _ hlines ih => grind

end DeadCode.Text
