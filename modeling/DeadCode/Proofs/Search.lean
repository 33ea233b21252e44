import DeadCode.Text.Search
import DeadCode.Text.Space
import DeadCode.Proofs.Line
import DeadCode.Proofs.Text

/-!
# DeadCode.Proofs.Search

Searches with a recogniser. A search goes over a text piece by piece: a piece that is recognised
gives a find, and one in which nothing is recognised is passed over (`Passes`). A recogniser that
answers only at the start of a line passes over the rest of every line.
-/

namespace DeadCode.Text

variable {α : Type} {recognise : Recogniser α} {as bs cs rest : List Char}

/-- The last character of a text that stands behind `before`. -/
def lastOf (before : Option Char) (cs : List Char) : Option Char := cs.getLast?.or before

@[simp]
theorem lastOf_nil (before : Option Char) : lastOf before [] = before := rfl

theorem lastOf_append (before : Option Char) (as bs : List Char) :
    lastOf before (as ++ bs) = lastOf (lastOf before as) bs := by
  rw [lastOf, List.getLast?_append, Option.or_assoc]
  rfl

theorem lastOf_cons (before : Option Char) (c : Char) (cs : List Char) :
    lastOf before (c :: cs) = lastOf (some c) cs :=
  lastOf_append before [c] cs

/-- What is to be skipped is skipped character by character, and the offset counts its bytes. -/
theorem findsFrom_skip (before : Option Char) (offset : Nat) (as bs : List Char) :
    findsFrom recognise as.length before offset (as ++ bs) =
      findsFrom recognise 0 (lastOf before as) (offset + byteLength as) bs := by
  induction as generalizing before offset with
  | nil => rfl
  | cons c as ih =>
    rw [List.cons_append, List.length_cons, findsFrom, ih, lastOf_cons, byteLength, Nat.add_assoc]

/-- A piece that is recognised is found, and the search goes on behind it. -/
theorem findsFrom_of_recognised {before : Option Char} {value : α} (hne : as ≠ [])
    (h : recognise before (as ++ rest) = some (value, rest)) (offset : Nat) :
    findsFrom recognise 0 before offset (as ++ rest) = ⟨offset, value⟩ ::
      findsFrom recognise 0 (lastOf before as) (offset + byteLength as) rest := by
  obtain ⟨c, as, rfl⟩ := List.exists_cons_of_ne_nil hne
  rw [List.cons_append] at h
  rw [List.cons_append, findsFrom, h]
  have hlength : (as ++ rest).length - rest.length = as.length := by simp
  dsimp only
  rw [hlength, findsFrom_skip, lastOf_cons, byteLength, Nat.add_assoc]

/-- The search goes over `as` without a find, if `rest` follows. -/
def Passes (recognise : Recogniser α) (before : Option Char) (as rest : List Char) : Prop :=
  ∀ offset, findsFrom recognise 0 before offset (as ++ rest) =
    findsFrom recognise 0 (lastOf before as) (offset + byteLength as) rest

namespace Passes

variable {before : Option Char}

theorem nil : Passes recognise before [] rest := fun _ => rfl

theorem append (has : Passes recognise before as (bs ++ rest))
    (hbs : Passes recognise (lastOf before as) bs rest) :
    Passes recognise before (as ++ bs) rest := fun offset => by
  rw [List.append_assoc, has, hbs, lastOf_append, byteLength_append, Nat.add_assoc]

theorem cons {c : Char} (h : recognise before (c :: (as ++ rest)) = none)
    (has : Passes recognise (some c) as rest) : Passes recognise before (c :: as) rest :=
  fun offset => by
    rw [List.cons_append, findsFrom, h]
    dsimp only
    rw [has, lastOf_cons, byteLength, Nat.add_assoc]

end Passes

/-- A piece that is recognised is found, and the text behind it that is passed over is skipped. -/
theorem findsFrom_of_recognised_append {before : Option Char} {value : α} (hne : as ≠ [])
    (h : recognise before (as ++ (bs ++ rest)) = some (value, bs ++ rest))
    (hbs : Passes recognise (lastOf before as) bs rest) (offset : Nat) :
    findsFrom recognise 0 before offset (as ++ bs ++ rest) = ⟨offset, value⟩ ::
      findsFrom recognise 0 (lastOf before (as ++ bs)) (offset + byteLength (as ++ bs)) rest := by
  rw [List.append_assoc, findsFrom_of_recognised hne h, hbs, lastOf_append, byteLength_append,
    Nat.add_assoc]

/-! ### Recognisers of lines -/

/-- The text starts, behind blanks, with `word` and a further blank. -/
def Opens (word cs : List Char) : Prop :=
  ∃ blank rest, isBlank blank = true ∧ cs.dropWhile isBlank = word ++ blank :: rest

theorem isSpace_of_isBlank {c : Char} (h : isBlank c = true) : isSpace c = true := by
  rw [isBlank, Bool.or_eq_true, beq_iff_eq, beq_iff_eq] at h
  rcases h with rfl | rfl <;> rfl

/-- Space in front does not open a word. -/
theorem Opens.of_append_space {word : List Char} (hne : word ≠ [])
    (hword : ∀ x ∈ word, isSpace x = false) (has : ∀ x ∈ as, isSpace x = true)
    (h : Opens word (as ++ rest)) : Opens word rest := by
  induction as with
  | nil => exact h
  | cons x as ih =>
    have hx : isSpace x = true := has x List.mem_cons_self
    by_cases hblank : isBlank x = true
    · refine ih (fun y hy => has y (.tail _ hy)) ?_
      rwa [Opens, List.cons_append, List.dropWhile_cons_of_pos hblank] at h
    · obtain ⟨blank, after, -, heq⟩ := h
      obtain ⟨c, word, rfl⟩ := List.exists_cons_of_ne_nil hne
      rw [List.cons_append, List.dropWhile_cons_of_neg hblank] at heq
      rw [(List.cons.inj heq).1, hword c List.mem_cons_self] at hx
      cases hx

/-- A character that does not stand in the word does not open it either. -/
theorem not_opens_cons {word : List Char} {c : Char} (hne : word ≠ []) (hblank : isBlank c = false)
    (hc : c ∉ word) : ¬ Opens word (c :: rest) := fun h => by
  obtain ⟨blank, after, -, heq⟩ := h
  obtain ⟨x, word, rfl⟩ := List.exists_cons_of_ne_nil hne
  rw [List.dropWhile_cons_of_neg (by simp [hblank])] at heq
  exact hc ((List.cons.inj heq).1 ▸ List.mem_cons_self)

/-- Of the texts without space, only the word itself opens it. -/
theorem eq_of_opens {word : List Char} (hne : as ≠ []) (has : ∀ x ∈ as, isSpace x = false)
    (hrest : ∀ x ∈ rest.head?, x ∉ word) (h : Opens word (as ++ rest)) : as = word := by
  obtain ⟨c, as, rfl⟩ := List.exists_cons_of_ne_nil hne
  obtain ⟨blank, after, hblank, heq⟩ := h
  have hc : ¬ isBlank c = true := fun hc => by
    have := has c List.mem_cons_self
    rw [isSpace_of_isBlank hc] at this
    cases this
  rw [List.cons_append, List.dropWhile_cons_of_neg hc, ← List.cons_append,
    List.append_eq_append_iff] at heq
  rcases heq with ⟨more, hword, hmore⟩ | ⟨more, hword, hmore⟩
  · cases more with
    | nil => simpa using hword.symm
    | cons x more =>
      rw [hmore] at hrest
      exact absurd (hword ▸ by simp) (hrest x rfl)
  · cases more with
    | nil => simpa using hword
    | cons x more =>
      obtain ⟨rfl, -⟩ := List.cons.inj hmore
      have := has blank (hword ▸ by simp)
      rw [isSpace_of_isBlank hblank] at this
      cases this

/-- The recogniser answers at the start of a line only, and there only where `word` opens the
line. -/
structure IsLineRecogniser (recognise : Recogniser α) (word : List Char) : Prop where
  lineStart : ∀ {before cs found}, recognise before cs = some found → atLineStart before = true
  opens : ∀ {before cs found}, recognise before cs = some found → Opens word cs

namespace IsLineRecogniser

variable {word : List Char} {before : Option Char}

/-- Nothing is recognised between two starts of lines. -/
theorem passes_inner (h : IsLineRecogniser recognise word) (hbefore : atLineStart before = false)
    (has : '\n' ∉ as) : Passes recognise before as rest := by
  induction as generalizing before with
  | nil => exact .nil
  | cons c as ih =>
    have hc : c ≠ '\n' := fun hc => has (hc ▸ List.mem_cons_self)
    refine .cons ?_ (ih (by simpa [atLineStart] using hc) fun h => has (.tail _ h))
    refine Option.eq_none_iff_forall_ne_some.2 fun found hfound => ?_
    rw [h.lineStart hfound] at hbefore
    cases hbefore

/-- A text without a line feed is passed over, unless it opens the word. -/
theorem passes_line (h : IsLineRecogniser recognise word) (has : '\n' ∉ as)
    (hopens : ¬ Opens word (as ++ rest)) : Passes recognise before as rest := by
  cases as with
  | nil => exact .nil
  | cons c as =>
    have hc : c ≠ '\n' := fun hc => has (hc ▸ List.mem_cons_self)
    refine .cons ?_ (h.passes_inner (by simpa [atLineStart] using hc) fun h => has (.tail _ h))
    exact Option.eq_none_iff_forall_ne_some.2 fun found hfound => hopens (h.opens hfound)

/-- Space is passed over, unless what follows opens the word. -/
theorem passes_space (h : IsLineRecogniser recognise word) (hne : word ≠ [])
    (hword : ∀ x ∈ word, isSpace x = false) (has : ∀ x ∈ as, isSpace x = true)
    (hopens : ¬ Opens word rest) : Passes recognise before as rest := by
  induction as generalizing before with
  | nil => exact .nil
  | cons x as ih =>
    refine .cons ?_ (ih fun y hy => has y (.tail _ hy))
    refine Option.eq_none_iff_forall_ne_some.2 fun found hfound => hopens ?_
    have hopened : Opens word ((x :: as) ++ rest) := h.opens hfound
    exact hopened.of_append_space hne hword has

end IsLineRecogniser

/-! ### Steps of a recogniser -/

theorem expect_append (word : String) (rest : List Char) :
    expect word (word.toList ++ rest) = some rest :=
  dropPrefix?_eq_some_iff.2 rfl

theorem expectMany_append {p : Char → Bool} (hne : as ≠ []) (has : ∀ x ∈ as, p x = true)
    (hrest : Stops p rest) : expectMany p (as ++ rest) = some rest := by
  obtain ⟨c, as, rfl⟩ := List.exists_cons_of_ne_nil hne
  rw [List.cons_append, expectMany, expectIf, if_pos (has c List.mem_cons_self), Option.map_some,
    dropWhile_append_of_stops (fun x hx => has x (.tail _ hx)) hrest]

theorem takeName_append {first next : Char → Bool} {c : Char} (hc : first c = true)
    (has : ∀ x ∈ as, next x = true) (hrest : Stops next rest) :
    takeName first next (c :: as ++ rest) = some (c :: as, rest) := by
  rw [List.cons_append, takeName, if_pos hc, takeWhile_append_of_stops has hrest,
    dropWhile_append_of_stops has hrest]

end DeadCode.Text
