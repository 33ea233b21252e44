import DeadCode.Proofs.CleanPath
import DeadCode.Proofs.Search

/-!
# DeadCode.Proofs.LineSearch

Searches for statements. A statement starts at the start of a line and does not end with a line end
(`ReadsStatements`), so a search for statements goes over a text line by line: where one is read,
the lines up to its last one are done with. The main result is that a search with a recogniser is
this run over the lines (`flatMap_findsFrom_eq_readLines`), which forgets offsets and what was read
before.
-/

namespace DeadCode.Text

/-- The text of several lines. -/
def joinLines (ls : List (List Char)) : List Char := joinWith ['\n'] ls

section JoinLines

variable {l : List Char} {ls : List (List Char)}

theorem joinLines_cons (l : List Char) (ls : List (List Char)) :
    joinLines (l :: ls) = l ++ ls.flatMap ('\n' :: ·) :=
  joinWith_cons ['\n'] l ls

theorem joinLines_cons_of_ne_nil (l : List Char) (hne : ls ≠ []) :
    joinLines (l :: ls) = l ++ '\n' :: joinLines ls := by
  obtain ⟨next, others, rfl⟩ := List.exists_cons_of_ne_nil hne
  rw [joinLines_cons, joinLines_cons]
  rfl

theorem newlines_eq_zero {cs : List Char} (h : '\n' ∉ cs) : newlines cs = 0 :=
  List.count_eq_zero.2 h

/-- There is one line more than there are line feeds. -/
theorem length_splitOn_newline (cs : List Char) : (splitOn '\n' cs).length = newlines cs + 1 := by
  induction hn : cs.length using Nat.strongRecOn generalizing cs with
  | _ n ih =>
    by_cases hmem : '\n' ∈ cs
    · obtain ⟨as, bs, rfl, has⟩ := List.eq_append_cons_of_mem hmem
      have hbs := ih bs.length (by simp at hn; omega) bs rfl
      rw [splitOn_append_cons, splitOn_of_not_mem has, List.length_append, hbs, newlines_append,
        newlines_eq_zero has]
      simp [newlines, Nat.add_comm]
    · rw [splitOn_of_not_mem hmem, newlines_eq_zero hmem]
      rfl

variable (hls : ∀ l ∈ ls, '\n' ∉ l)

include hls

theorem newlines_joinLines (hne : ls ≠ []) : newlines (joinLines ls) + 1 = ls.length := by
  rw [← length_splitOn_newline, joinLines, splitOn_joinWith hls hne]

/-- Behind a line end, the lines go on that have not been counted before it. -/
theorem eq_joinLines_drop {as bs : List Char} (h : joinLines ls = as ++ '\n' :: bs) :
    bs = joinLines (ls.drop (newlines as + 1)) := by
  have hne : ls ≠ [] := by
    rintro rfl
    simp [joinLines, joinWith] at h
  have hsplit : ls = splitOn '\n' as ++ splitOn '\n' bs := by
    rw [← splitOn_append_cons, ← h, joinLines, splitOn_joinWith hls hne]
  rw [hsplit, ← length_splitOn_newline, List.drop_left, joinLines, joinWith_splitOn]

end JoinLines

/-! ### Statements -/

/-- What has been read when `rest` is left of `cs` does not end with a line end. -/
def EndsInLine (cs rest : List Char) : Prop := ∃ as c, cs = as ++ [c] ++ rest ∧ c ≠ '\n'

namespace EndsInLine

variable {cs rest rest' : List Char}

theorem of_append {as : List Char} (hne : as ≠ []) (has : '\n' ∉ as) (rest : List Char) :
    EndsInLine (as ++ rest) rest := by
  obtain ⟨init, c, rfl⟩ := (List.eq_nil_or_concat' as).resolve_left hne
  exact ⟨init, c, rfl, fun hc => has (by simp [hc])⟩

theorem of_suffix (h : EndsInLine rest rest') (hrest : rest <:+ cs) : EndsInLine cs rest' := by
  obtain ⟨as, c, rfl, hc⟩ := h
  obtain ⟨init, rfl⟩ := hrest
  exact ⟨init ++ as, c, by simp, hc⟩

theorem suffix (h : EndsInLine cs rest) : rest <:+ cs := by
  obtain ⟨as, c, rfl, -⟩ := h
  exact List.suffix_append (as ++ [c]) rest

theorem length_lt (h : EndsInLine cs rest) : rest.length < cs.length := by
  obtain ⟨as, c, rfl, -⟩ := h
  simp only [List.length_append, List.length_singleton]
  omega

end EndsInLine

variable {α β : Type} {recognise : Recogniser α} {read : List Char → Option (α × List Char)}
  {before : Option Char} {offset : Nat}

/-- The recogniser answers at the start of a line only, as `read` does, and what it reads ends
within a line. -/
structure ReadsStatements (recognise : Recogniser α)
    (read : List Char → Option (α × List Char)) : Prop where
  recognise_eq : ∀ before cs, recognise before cs = if atLineStart before then read cs else none
  ends : ∀ {cs value rest}, read cs = some (value, rest) → EndsInLine cs rest

/-- What a statement at the start of a text stands for, and how many line ends it goes over.
`meaning` is what a statement on a line stands for. -/
def readStep (read : List Char → Option (α × List Char)) (meaning : Nat → α → List β) (line : Nat)
    (cs : List Char) : List β × Nat :=
  match read cs with
  | some (value, rest) => (meaning line value, newlines cs - newlines rest)
  | none => ([], 0)

/-- What is read in a run over lines, of which the first `skip` are done with. -/
def readLines (read : List Char → Option (α × List Char)) (meaning : Nat → α → List β) :
    Nat → Nat → List (List Char) → List β
  | _, _, [] => []
  | skip + 1, line, _ :: ls => readLines read meaning skip (line + 1) ls
  | 0, line, l :: ls =>
    let step := readStep read meaning line (joinLines (l :: ls))
    step.1 ++ readLines read meaning step.2 (line + 1) ls

/-- Lines that are skipped are lines that are dropped. -/
theorem readLines_skip (meaning : Nat → α → List β) (skip line : Nat) (ls : List (List Char)) :
    readLines read meaning skip line ls =
      readLines read meaning 0 (line + skip) (ls.drop skip) := by
  induction skip generalizing line ls with
  | zero => rfl
  | succ skip ih =>
    cases ls with
    | nil => rfl
    | cons l ls => rw [readLines, ih, List.drop_succ_cons, Nat.add_assoc, Nat.add_comm 1]

/-- The statements at the start of two texts stand for the same and go over `n` line ends. -/
def ReadAlike (read : List Char → Option (α × List Char)) (meaning : Nat → α → List β)
    (line n : Nat) (cs cs' : List Char) : Prop :=
  ∃ found, readStep read meaning line cs = (found, n) ∧ readStep read meaning line cs' = (found, n)

/-- Two runs read the same if they do in their first line and behind the statement there. -/
theorem ReadAlike.readLines_eq {meaning : Nat → α → List β} {line n : Nat} {l l' : List Char}
    {ls ls' : List (List Char)}
    (h : ReadAlike read meaning line n (joinLines (l :: ls)) (joinLines (l' :: ls')))
    (hnext : readLines read meaning 0 (line + 1 + n) (ls.drop n) =
      readLines read meaning 0 (line + 1 + n) (ls'.drop n)) :
    readLines read meaning 0 line (l :: ls) = readLines read meaning 0 line (l' :: ls') := by
  obtain ⟨found, hfound, hfound'⟩ := h
  rw [readLines, readLines, hfound, hfound']
  dsimp only
  rw [readLines_skip, hnext, ← readLines_skip]

namespace ReadsStatements

/-- Nothing is recognised in the middle of a line. -/
theorem eq_none (h : ReadsStatements recognise read) (hbefore : atLineStart before = false)
    (cs : List Char) : recognise before cs = none := by
  rw [h.recognise_eq, hbefore]
  rfl

/-- Where no statement is read, nothing is found up to the end of the line. -/
theorem passes_line (h : ReadsStatements recognise read) {as rest : List Char}
    (hnone : recognise before (as ++ rest) = none) (has : '\n' ∉ as.dropLast) :
    Passes recognise before as rest := by
  induction as generalizing before with
  | nil => exact .nil
  | cons c as ih =>
    refine .cons hnone ?_
    cases as with
    | nil => exact .nil
    | cons d as =>
      rw [List.dropLast_cons_cons, List.mem_cons, not_or] at has
      have hc : atLineStart (some c) = false := by
        simpa [atLineStart] using fun hc : c = '\n' => has.1 hc.symm
      exact ih (h.eq_none hc _) has.2

/-- Where no statement starts in the rest of a line, the search goes on in the next one, if there is
a next one. -/
theorem passes_restOfLine (h : ReadsStatements recognise read) {l as rest : List Char}
    {ls : List (List Char)} (hls : ∀ x ∈ l :: ls, '\n' ∉ x)
    (htext : joinLines (l :: ls) = as ++ rest) (hnone : recognise before rest = none) :
    (ls.drop (newlines as) = [] ∧ Passes recognise before rest []) ∨
      ∃ xs, rest = xs ++ ['\n'] ++ joinLines (ls.drop (newlines as)) ∧ '\n' ∉ xs ∧
        Passes recognise before (xs ++ ['\n']) (joinLines (ls.drop (newlines as))) := by
  by_cases hmem : '\n' ∈ rest
  · obtain ⟨xs, more, rfl, hxs⟩ := List.eq_append_cons_of_mem hmem
    have hmore := eq_joinLines_drop hls (htext.trans (List.append_assoc as xs _).symm)
    rw [newlines_append, newlines_eq_zero hxs, Nat.add_zero, List.drop_succ_cons] at hmore
    subst hmore
    refine .inr ⟨xs, by simp, hxs, h.passes_line (by simpa using hnone) (by simpa using hxs)⟩
  · have hlines := newlines_joinLines hls (List.cons_ne_nil l ls)
    rw [htext, newlines_append, newlines_eq_zero hmem, List.length_cons] at hlines
    refine .inl ⟨List.drop_eq_nil_of_le (by omega), h.passes_line (by simpa using hnone) ?_⟩
    exact fun hlast => hmem ((List.dropLast_sublist rest).mem hlast)

/-- The finds of a search stand for what a run over the lines reads. -/
theorem flatMap_findsFrom_eq_readLines (h : ReadsStatements recognise read)
    (meaning : Nat → α → List β) {ls : List (List Char)} (hls : ∀ l ∈ ls, '\n' ∉ l)
    (ahead : List Char) (hahead : atLineStart (lastOf none ahead) = true) :
    (findsFrom recognise 0 (lastOf none ahead) (byteLength ahead) (joinLines ls)).flatMap
        (fun found => meaning
          ((LineIndex.ofText (ahead ++ joinLines ls)).lineAt found.offset) found.value) =
      readLines read meaning 0 (newlines ahead + 1) ls := by
  -- by strong induction on the number of lines: a statement may go over several at once
  induction hn : ls.length using Nat.strongRecOn generalizing ls ahead with
  | _ n ih =>
    cases ls with
    | nil => rfl
    | cons l ls =>
      -- where nothing is recognised, the search runs to the end of the line, and from the next line
      -- on the induction hypothesis tells what it finds
      have hnext : ∀ as rest, joinLines (l :: ls) = as ++ rest →
          recognise (lastOf none (ahead ++ as)) rest = none →
          (findsFrom recognise 0 (lastOf none (ahead ++ as)) (byteLength (ahead ++ as))
              rest).flatMap (fun found => meaning
                ((LineIndex.ofText (ahead ++ joinLines (l :: ls))).lineAt found.offset)
                found.value) =
            readLines read meaning (newlines as) (newlines ahead + 1 + 1) ls := by
        intro as rest htext hnone
        rw [readLines_skip]
        rcases h.passes_restOfLine hls htext hnone with ⟨hdrop, hpass⟩ | ⟨xs, hrest, hxs, hpass⟩
        -- no line is left
        · have hend := hpass (byteLength (ahead ++ as))
          rw [List.append_nil] at hend
          rw [hdrop, hend]
          rfl
        -- the search is at the start of a line, with everything up to it counted as ahead
        · have hrun := ih (ls.drop (newlines as)).length (by simp at hn ⊢; omega)
            (fun l hl => hls l (.tail _ (List.mem_of_mem_drop hl)))
            (ahead ++ as ++ (xs ++ ['\n'])) (by simp [lastOf, atLineStart]) rfl
          have hlines : newlines (ahead ++ as ++ (xs ++ ['\n'])) + 1 =
              newlines ahead + 1 + 1 + newlines as := by
            simp only [newlines_append, newlines_eq_zero hxs]
            simp [newlines]
            omega
          rw [hlines, lastOf_append, byteLength_append, List.append_assoc ahead] at hrun
          rw [hrest, hpass, htext, hrest]
          simpa using hrun
      -- what is read at the start of the first line decides how many lines are done with
      cases hread : read (joinLines (l :: ls)) with
      -- no statement: the run goes on in the second line
      | none =>
        have hrun := hnext [] (joinLines (l :: ls)) rfl (by rw [h.recognise_eq, hread, ite_self])
        rw [List.append_nil] at hrun
        rw [readLines, readStep, hread, hrun]
        rfl
      -- a statement: behind it the search is inside a line
      | some found =>
        obtain ⟨value, rest⟩ := found
        obtain ⟨as, c, htext, hc⟩ := h.ends hread
        have hinner : atLineStart (lastOf none (ahead ++ (as ++ [c]))) = false := by
          simpa [lastOf, atLineStart] using hc
        have hrun := hnext (as ++ [c]) rest htext (h.eq_none hinner rest)
        have hfound : recognise (lastOf none ahead) (as ++ [c] ++ rest) = some (value, rest) := by
          rw [h.recognise_eq, hahead, ← htext, hread]
          rfl
        -- the find has the number of the line that it starts on
        have hline := LineIndex.lineAt_ofText ahead (joinLines (l :: ls))
        have hlines : newlines (joinLines (l :: ls)) - newlines rest = newlines (as ++ [c]) := by
          rw [htext, newlines_append]
          omega
        rw [lastOf_append, byteLength_append] at hrun
        rw [readLines, readStep, hread]
        dsimp only
        rw [hlines, ← hrun, htext, findsFrom_of_recognised (by simp) hfound, List.flatMap_cons,
          ← htext, hline]

end ReadsStatements

end DeadCode.Text
