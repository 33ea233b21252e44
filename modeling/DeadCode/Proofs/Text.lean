import DeadCode.Path.Basic

/-!
# DeadCode.Proofs.Text

The functions of `DeadCode.Text.Basic` in terms of prefixes, infixes and concatenation of lists.
The counting of copies goes from left to right and resumes behind each copy; that it counts a second
one exactly when there are two that do not overlap (`one_lt_copies_iff`) is the one place where the
order of the search matters.
-/

namespace DeadCode

namespace Text

/-! ### Prefixes -/

theorem dropPrefix?_eq_some_iff {p cs rest : List Char} :
    dropPrefix? p cs = some rest ↔ cs = p ++ rest := by
  induction p generalizing cs with
  | nil => simp [dropPrefix?]
  | cons x p ih =>
    cases cs with
    | nil => simp [dropPrefix?]
    | cons c cs =>
      rw [dropPrefix?]
      split
      · next h => simp [h, ih]
      · next h => simp [Ne.symm h]

theorem startsWith_iff {p cs : List Char} : startsWith p cs = true ↔ p <+: cs := by
  rw [startsWith, Option.isSome_iff_exists]
  exact exists_congr fun rest => dropPrefix?_eq_some_iff.trans eq_comm

/-! ### Runs of characters -/

section Runs

/-- The text does not go on with a character in `p`. -/
def Stops (p : Char → Bool) (rest : List Char) : Prop := ∀ c ∈ rest.head?, p c = false

variable {p : Char → Bool} {c : Char} {as bs cs rest : List Char}

theorem stops_nil : Stops p [] := fun _ h => by cases h

theorem stops_cons : Stops p (c :: cs) ↔ p c = false := by
  simp [Stops]

theorem stops_of_forall (h : ∀ x ∈ cs, p x = false) : Stops p cs :=
  fun c hc => h c (List.mem_of_mem_head? hc)

theorem stops_append (has : ∀ x ∈ as, p x = false) (hrest : Stops p rest) :
    Stops p (as ++ rest) := by
  cases as with
  | nil => exact hrest
  | cons c as => exact stops_cons.2 (has c List.mem_cons_self)

theorem stops_append_of_ne_nil (hne : as ≠ []) (has : ∀ x ∈ as, p x = false) :
    Stops p (as ++ rest) := by
  obtain ⟨c, as, rfl⟩ := List.exists_cons_of_ne_nil hne
  exact stops_cons.2 (has c List.mem_cons_self)

theorem takeWhile_append_of_stops (has : ∀ x ∈ as, p x = true) (hrest : Stops p rest) :
    (as ++ rest).takeWhile p = as := by
  rw [List.takeWhile_append_of_pos has]
  cases rest with
  | nil => simp
  | cons c rest => rw [List.takeWhile_cons_of_neg (by simp [stops_cons.1 hrest]), List.append_nil]

theorem dropWhile_append_of_stops (has : ∀ x ∈ as, p x = true) (hrest : Stops p rest) :
    (as ++ rest).dropWhile p = rest := by
  rw [List.dropWhile_append_of_pos has]
  cases rest with
  | nil => rfl
  | cons c rest => rw [List.dropWhile_cons_of_neg (by simp [stops_cons.1 hrest])]

theorem dropEndWhile_append_of_stops (hrest : Stops p as.reverse) (hbs : ∀ x ∈ bs, p x = true) :
    dropEndWhile p (as ++ bs) = as := by
  rw [dropEndWhile, List.reverse_append,
    dropWhile_append_of_stops (fun x hx => hbs x (List.mem_reverse.1 hx)) hrest,
    List.reverse_reverse]

theorem dropEndWhile_of_forall (h : ∀ x ∈ cs, p x = false) : dropEndWhile p cs = cs := by
  have hstops : Stops p cs.reverse := stops_of_forall fun x hx => h x (List.mem_reverse.1 hx)
  simpa using dropEndWhile_append_of_stops hstops (List.forall_mem_nil _)

theorem dropEndWhile_append_takeWhile (p : Char → Bool) (cs : List Char) :
    dropEndWhile p cs ++ (cs.reverse.takeWhile p).reverse = cs := by
  rw [dropEndWhile, ← List.reverse_append, List.takeWhile_append_dropWhile, List.reverse_reverse]

theorem stops_dropWhile (p : Char → Bool) (cs : List Char) : Stops p (cs.dropWhile p) := by
  intro c hc
  have hhead := List.head?_dropWhile_not p cs
  rw [Option.mem_def.1 hc] at hhead
  exact hhead

theorem stops_trimWhile (p : Char → Bool) (cs : List Char) : Stops p (trimWhile p cs) := by
  intro c hc
  refine stops_dropWhile p cs c ?_
  rw [← dropEndWhile_append_takeWhile p (cs.dropWhile p), List.head?_append]
  exact Option.or_eq_some_iff.2 (.inl hc)

theorem stops_reverse_trimWhile (p : Char → Bool) (cs : List Char) :
    Stops p (trimWhile p cs).reverse := by
  rw [trimWhile, dropEndWhile, List.reverse_reverse]
  exact stops_dropWhile p _

/-- A text that does not start with a character in `p` starts behind all such characters. -/
theorem length_le_of_append_of_stops {before : List Char} (hne : cs ≠ []) (hcs : Stops p cs)
    (hbefore : ∀ c ∈ before, p c = true) (h : as ++ (cs ++ bs) = before ++ rest) :
    before.length ≤ as.length := by
  refine Nat.le_of_not_lt fun hlt => ?_
  obtain ⟨d, ds, rfl⟩ := List.exists_cons_of_ne_nil hne
  have hd : d ∈ before := by
    have hplace : (before ++ rest)[as.length]? = some d := by rw [← h]; simp
    rw [List.getElem?_append_left hlt] at hplace
    exact List.mem_of_getElem? hplace
  have hfalse := hbefore d hd
  rw [stops_cons.1 hcs] at hfalse
  cases hfalse

/-- A text that neither starts nor ends with a character in `p` has one place only between runs of
such characters. -/
theorem eq_of_append_of_stops {before behind : List Char} (hne : cs ≠ []) (hstart : Stops p cs)
    (hend : Stops p cs.reverse) (hbefore : ∀ c ∈ before, p c = true)
    (hbehind : ∀ c ∈ behind, p c = true) (h : as ++ (cs ++ bs) = before ++ (cs ++ behind)) :
    as = before ∧ bs = behind := by
  have hle : before.length ≤ as.length := length_le_of_append_of_stops hne hstart hbefore h
  -- the same from the other end
  have hreverse : bs.reverse ++ (cs.reverse ++ as.reverse) =
      behind.reverse ++ (cs.reverse ++ before.reverse) := by
    simpa using congrArg List.reverse h
  have hge := length_le_of_append_of_stops (List.reverse_ne_nil_iff.2 hne) hend
    (fun c hc => hbehind c (List.mem_reverse.1 hc)) hreverse
  have hlength := congrArg List.length h
  simp only [List.length_append, List.length_reverse] at hlength hge
  obtain ⟨has, hrest⟩ := List.append_inj h (by omega)
  exact ⟨has, List.append_cancel_left hrest⟩
end Runs

/-! ### Cutting -/

theorem eq_of_cutLast {c : Char} {cs before after : List Char}
    (h : cutLast c cs = some (before, after)) : cs = before ++ c :: after := by
  induction cs generalizing before with
  | nil => simp [cutLast] at h
  | cons x xs ih =>
    rw [cutLast] at h
    split at h
    · next hxs =>
      obtain ⟨rfl, rfl⟩ := Prod.mk.inj (Option.some.inj h)
      rw [List.cons_append, ← ih hxs]
    · split at h
      · next hx =>
        obtain ⟨rfl, rfl⟩ := Prod.mk.inj (Option.some.inj h)
        rw [hx, List.nil_append]
      · cases h

/-! ### Searching -/

theorem occursIn_iff {needle cs : List Char} : occursIn needle cs = true ↔ needle <:+: cs := by
  induction cs with
  | nil => simp [occursIn]
  | cons c cs ih => rw [occursIn, Bool.or_eq_true, startsWith_iff, ih, List.infix_cons_iff]

/-- The needle stands at two places of a text, the second one behind the end of the first. -/
def StandsTwice (needle cs : List Char) : Prop :=
  ∃ before between after,
    cs = before ++ needle ++ between ++ needle ++ after ∧ needle ++ between ≠ []

theorem copiesFrom_eq_drop (needle : List Char) (skip : Nat) (cs : List Char) :
    copiesFrom needle skip cs = copiesFrom needle 0 (cs.drop skip) := by
  induction cs generalizing skip with
  | nil => simp [copiesFrom]
  | cons c cs ih =>
    cases skip with
    | zero => rfl
    | succ skip => rw [copiesFrom, ih, List.drop_succ_cons]

/-- A copy at the front is counted, and the count goes on behind it. -/
theorem copiesFrom_append {needle : List Char} (hne : needle ≠ []) (rest : List Char) :
    copiesFrom needle 0 (needle ++ rest) = copiesFrom needle 0 rest + 1 := by
  obtain ⟨c, cs, rfl⟩ := List.exists_cons_of_ne_nil hne
  have hstart : startsWith (c :: cs) (c :: (cs ++ rest)) = true :=
    startsWith_iff.2 ⟨rest, rfl⟩
  rw [List.cons_append, copiesFrom, if_pos hstart, copiesFrom_eq_drop]
  simp

theorem copiesFrom_cons_of_not_start {needle cs : List Char} {c : Char}
    (h : ¬ needle <+: c :: cs) : copiesFrom needle 0 (c :: cs) = copiesFrom needle 0 cs := by
  rw [copiesFrom, if_neg (fun hs => h (startsWith_iff.1 hs))]

theorem copiesFrom_pos_iff {needle : List Char} (hne : needle ≠ []) {cs : List Char} :
    0 < copiesFrom needle 0 cs ↔ needle <:+: cs := by
  induction cs with
  | nil => simp [copiesFrom, hne]
  | cons c cs ih =>
    rw [List.infix_cons_iff]
    by_cases h : needle <+: c :: cs
    · obtain ⟨rest, hrest⟩ := h
      rw [← hrest, copiesFrom_append hne]
      simp
    · rw [copiesFrom_cons_of_not_start h, ih]
      simp [h]

/-- A second copy is counted exactly when one stands behind the first place that the search finds;
any other first place only leaves less text behind it. -/
theorem one_lt_copiesFrom_iff {needle : List Char} (hne : needle ≠ []) {cs : List Char} :
    1 < copiesFrom needle 0 cs ↔
      ∃ before rest, cs = before ++ needle ++ rest ∧ needle <:+: rest := by
  induction cs with
  | nil => simp [copiesFrom, hne]
  | cons c cs ih =>
    -- a copy at the start is counted and passed over, and any first copy ends where it does or
    -- later
    by_cases h : needle <+: c :: cs
    · obtain ⟨rest, hrest⟩ := h
      rw [← hrest, copiesFrom_append hne, Nat.lt_add_left_iff_pos, copiesFrom_pos_iff hne]
      constructor
      · exact fun hinfix => ⟨[], rest, rfl, hinfix⟩
      · intro h
        obtain ⟨before, rest', heq, hinfix⟩ := h
        have hsuffix' : rest' <:+ needle ++ rest := ⟨before ++ needle, heq.symm⟩
        have hsuffix : rest <:+ needle ++ rest := ⟨needle, rfl⟩
        have hlength : rest'.length ≤ rest.length := by
          have := congrArg List.length heq
          simp only [List.length_append] at this
          omega
        have hle : rest' <:+ rest := List.suffix_of_suffix_length_le hsuffix' hsuffix hlength
        exact hinfix.trans hle.isInfix
    · rw [copiesFrom_cons_of_not_start h, ih]
      constructor
      · intro h
        obtain ⟨before, rest, rfl, hinfix⟩ := h
        exact ⟨c :: before, rest, rfl, hinfix⟩
      · intro h
        obtain ⟨before, rest, heq, hinfix⟩ := h
        cases before with
        | nil => exact absurd ⟨rest, heq.symm⟩ h
        | cons x before => exact ⟨before, rest, (List.cons.inj heq).2, hinfix⟩

/-- There are two copies when a text stands twice without overlap. -/
theorem one_lt_copies_iff {needle cs : List Char} :
    1 < copies needle cs ↔ StandsTwice needle cs := by
  unfold copies StandsTwice
  by_cases hne : needle = []
  · subst hne
    simp only [List.isEmpty_nil, if_true, List.append_nil, List.nil_append]
    constructor
    · intro h
      exact ⟨[], cs, [], by simp, fun hnil => by simp [hnil] at h⟩
    · intro h
      obtain ⟨before, between, after, rfl, hbetween⟩ := h
      have := List.length_pos_iff.2 hbetween
      simp only [List.length_append]
      omega
  · rw [if_neg (by simpa using hne), one_lt_copiesFrom_iff hne]
    constructor
    · intro h
      obtain ⟨before, rest, rfl, between, after, rfl⟩ := h
      exact ⟨before, between, after, by simp, by simp [hne]⟩
    · intro h
      obtain ⟨before, between, after, rfl, -⟩ := h
      exact ⟨before, between ++ needle ++ after, by simp, between, after, rfl⟩

end Text

/-! ### Paths -/

namespace Path

open Text

theorem below?_eq_some_iff {dir path rest : String} :
    below? dir path = some rest ↔ path = dir ++ "/" ++ rest := by
  rw [below?, Option.map_eq_some_iff]
  constructor
  · rintro ⟨cs, hcs, rfl⟩
    apply String.toList_inj.1
    simp [dropPrefix?_eq_some_iff.1 hcs]
  · rintro rfl
    exact ⟨rest.toList, dropPrefix?_eq_some_iff.2 (by simp), String.ofList_toList⟩

theorem isWithin_iff {path dir : String} :
    isWithin path dir = true ↔ dir = "" ∨ dir.toList ++ ['/'] <+: path.toList := by
  simp only [isWithin, below?, Bool.or_eq_true, Option.isSome_map, String.isEmpty_iff]
  exact or_congr Iff.rfl startsWith_iff

/-- A file lies in its own directory. -/
theorem isWithin_parent (path : String) : isWithin path (parent path) = true := by
  rw [isWithin_iff, parent]
  split
  · next dir name hcut =>
    refine .inr ⟨name, ?_⟩
    rw [eq_of_cutLast hcut, String.toList_ofList]
    simp
  · exact .inl rfl

end Path

end DeadCode
