import DeadCode.Proofs.PythonStatement

/-!
# DeadCode.Proofs.PythonNames

What is read of an import from a module. The statement is recognised with a text of names
(`fromStatement_text`), and what that text binds depends on the words between its commas only
(`nameSpecifiers_eq`), so every name of the statement is read, on one line or over several
(`Names.nameSpecifiers_covered`).
-/

namespace DeadCode.Python

open Text

/-! ### The words of a list of names -/

theorem isSpace_of_isNamePart {c : Char} (h : isNamePart c = true) : isSpace c = false := by
  rw [isNamePart, Bool.and_eq_true, Bool.not_eq_true'] at h
  exact h.1

theorem isBreak_of_isNamePart {c : Char} (h : isNamePart c = true) : isBreak c = false := by
  have hcomma : c ≠ ',' := fun hc => by
    rw [hc] at h
    exact absurd h (by decide)
  simp [isBreak, isSpace_of_isNamePart h, hcomma]

theorem isBreak_of_isSpace {c : Char} (h : isSpace c = true) : isBreak c = true := by
  simp [isBreak, h]

theorem IsListedName.isBreak {cs : List Char} (h : IsListedName cs) : ∀ c ∈ cs, isBreak c = false :=
  fun c hc => isBreak_of_isNamePart (List.all_eq_true.1 h.parts c hc)

theorem isListedName_as : IsListedName "as".toList where
  ne_nil := by decide
  parts := by decide
  ne_import := by decide
  ne_from := by decide

section Words

variable {space : Char → Bool} {rest : List Char} {others : List (List (List Char))}

/-- The words of an item. -/
def NameItem.words (i : NameItem space) : List (List Char) :=
  i.name :: i.alias?.elim [] fun a => ["as".toList, a.name]

variable (hspace : ∀ c, space c = true → isSpace c = true)

include hspace

/-- A gap ends what goes on with no space. -/
theorem stops_gap {p : Char → Bool} (hp : ∀ c, isBreak c = true → p c = false) (gap : Gap space) :
    Stops p (gap.1 ++ rest) :=
  stops_append_of_ne_nil gap.2.1 fun c hc =>
    hp c (isBreak_of_isSpace (hspace c (of_mem_gap gap hc)))

theorem stops_run {p : Char → Bool} (hp : ∀ c, isBreak c = true → p c = false) (run : Run space)
    (hrest : Stops p rest) : Stops p (run.1 ++ rest) :=
  stops_append (fun c hc => hp c (isBreak_of_isSpace (hspace c (of_mem_run run hc)))) hrest

/-- The words of an item are found before a break. -/
theorem listedWords_item (i : NameItem space) (hrest : Stops (!isBreak ·) rest)
    (h : listedWords rest = [] :: others) :
    listedWords (i.text ++ rest) = i.words :: others := by
  rw [NameItem.text, NameItem.words]
  cases i.alias? with
  | none =>
    rw [aliasText, Option.elim_none, List.append_nil]
    exact listedWords_word i.isName.ne_nil i.isName.isBreak hrest h
  | some a =>
    rw [aliasText, Option.elim_some, Alias.text, List.append_assoc, List.append_assoc,
      List.append_assoc, List.append_assoc]
    have hbreak : ∀ c, isBreak c = true → (!isBreak c) = false := fun c hc => by simp [hc]
    have hname := listedWords_word a.isName.ne_nil a.isName.isBreak hrest h
    rw [← listedWords_append_space fun c hc => hspace c (of_mem_gap a.behind hc)] at hname
    have has := listedWords_word isListedName_as.ne_nil isListedName_as.isBreak
      (stops_gap hspace hbreak a.behind) hname
    rw [← listedWords_append_space fun c hc => hspace c (of_mem_gap a.before hc)] at has
    exact listedWords_word i.isName.ne_nil i.isName.isBreak (stops_gap hspace hbreak a.before) has

/-- What goes on behind an item is a space or a comma, or what follows the list. -/
theorem stops_others {p : Char → Bool} (hp : ∀ c, isBreak c = true → p c = false)
    (items : List (Run space × Run space × NameItem space)) (hrest : Stops p rest) :
    Stops p (items.flatMap (Listing.behindComma NameItem.text) ++ rest) := by
  cases items with
  | nil => exact hrest
  | cons item items =>
    rw [List.flatMap_cons, Listing.behindComma, List.append_assoc, List.append_assoc]
    exact stops_run hspace hp item.1 (stops_cons.2 (hp ',' rfl))

theorem stops_break_others (items : List (Run space × Run space × NameItem space))
    (hrest : Stops (!isBreak ·) rest) :
    Stops (!isBreak ·) (items.flatMap (Listing.behindComma NameItem.text) ++ rest) :=
  stops_others hspace (fun c hc => by simp [hc]) items hrest

theorem listedWords_others (items : List (Run space × Run space × NameItem space))
    (hrest : Stops (!isBreak ·) rest) (h : listedWords rest = [] :: others) :
    listedWords (items.flatMap (Listing.behindComma NameItem.text) ++ rest) =
      [] :: (items.map (·.2.2.words) ++ others) := by
  induction items with
  | nil => exact h
  | cons item items ih =>
    have hitem := listedWords_item hspace item.2.2 (stops_break_others hspace items hrest) ih
    rw [List.flatMap_cons, Listing.behindComma, List.append_assoc, List.append_assoc,
      listedWords_append_space fun c hc => hspace c (of_mem_run item.1 hc), List.cons_append,
      listedWords_comma, List.append_assoc,
      listedWords_append_space fun c hc => hspace c (of_mem_run item.2.1 hc), hitem]
    rfl

/-- A list of names has the words of its items. -/
theorem listedWords_names (names : Listing space (NameItem space))
    (hrest : Stops (!isBreak ·) rest) (h : listedWords rest = [] :: others) :
    listedWords (names.text NameItem.text ++ rest) = names.items.map NameItem.words ++ others := by
  rw [Listing.text, List.append_assoc,
    listedWords_item hspace names.first (stops_break_others hspace names.others hrest)
      (listedWords_others hspace names.others hrest h), Listing.items, List.map_cons, List.map_map]
  rfl

end Words

/-! ### The characters of a list of names -/

/-- Whether `c` may stand in a list of names. -/
def isListPart (c : Char) : Bool := isNamePart c || isBreak c

theorem isListPart_of_isSpace {c : Char} (h : isSpace c = true) : isListPart c = true := by
  simp [isListPart, isBreak, h]

/-- None of the characters that end a list stands in one. -/
theorem not_mem_of_isListPart {cs : List Char} (h : ∀ c ∈ cs, isListPart c = true) {c : Char}
    (hc : isListPart c = false) : c ∉ cs := fun hmem => by
  rw [h c hmem] at hc
  cases hc

/-- Whether `c` may stand in the names of a statement that are not in brackets. -/
def isLinePart (c : Char) : Bool := !(['\n', '#', ';', '(', ')'].contains c)

theorem isLinePart_of_isListPart {c : Char} (h : isListPart c = true) (hc : c ≠ '\n') :
    isLinePart c = true := by
  rw [isLinePart, Bool.not_eq_true', Bool.eq_false_iff]
  intro hmem
  rw [List.contains_iff_mem] at hmem
  simp only [List.mem_cons, List.not_mem_nil, or_false] at hmem
  rcases hmem with rfl | rfl | rfl | rfl | rfl
  · exact hc rfl
  all_goals exact absurd h (by decide)

section Characters

variable {space : Char → Bool}

theorem forall_mem_names {P : Char → Prop} (hpart : ∀ c, isNamePart c = true → P c)
    (hspace : ∀ c, space c = true → P c) (hcomma : P ',')
    (names : Listing space (NameItem space)) : ∀ c ∈ names.text NameItem.text, P c := by
  have hname : ∀ name, IsListedName name → ∀ c ∈ name, P c := fun name h c hc =>
    hpart c (List.all_eq_true.1 h.parts c hc)
  refine names.forall_mem_text hspace hcomma fun i c hc => ?_
  rcases List.mem_append.1 hc with hc | hc
  · exact hname _ i.isName c hc
  · exact forall_mem_aliasText hspace (hname _ isListedName_as) hname i.alias? c hc

theorem isListPart_names (hspace : ∀ c, space c = true → isSpace c = true)
    (names : Listing space (NameItem space)) :
    ∀ c ∈ names.text NameItem.text, isListPart c = true :=
  forall_mem_names (fun c hc => by rw [isListPart, hc, Bool.true_or])
    (fun c hc => isListPart_of_isSpace (hspace c hc)) rfl names

end Characters

/-! ### Names are read back -/

/-- What the words between two commas bind. -/
def namedSpecifier? : List (List Char) → Option Specifier
  | [] => none
  | name :: ['a', 's'] :: as :: _ => some (.named (.ofList name) (.ofList as))
  | name :: _ => some (.named (.ofList name) (.ofList name))

theorem namedSpecifier?_words {space : Char → Bool} (i : NameItem space) :
    namedSpecifier? i.words = some i.specifier := by
  rw [NameItem.words, NameItem.specifier]
  cases i.alias? with
  | none => rfl
  | some a => rfl

theorem nameSpecifier_of_words {item : List Char} (hstar : item ≠ ['*']) (h : words item ≠ []) :
    namedSpecifier? (words item) = some (nameSpecifier item) := by
  rw [nameSpecifier, if_neg (by simpa using hstar)]
  split
  · next hwords =>
    rw [hwords]
    rfl
  · next hmore hwords =>
    rw [hwords, namedSpecifier?]
    exact hmore
  · next hwords => exact absurd hwords h

/-- Without stars and backslashes, what a piece between commas binds is what its words say. -/
theorem namedSpecifier?_piece {piece : List Char} (hcomma : ',' ∉ piece) (hstar : '*' ∉ piece)
    (hslash : '\\' ∉ piece) :
    namedSpecifier? (words piece) =
      if (trim (dropEndWhile (· == '\\') (trim piece))).isEmpty then none
      else some (nameSpecifier (trim (dropEndWhile (· == '\\') (trim piece)))) := by
  have hmem : ∀ {c}, c ∉ piece → c ∉ trim piece := fun hc h => hc (mem_of_mem_trim h)
  have hdrop : dropEndWhile (· == '\\') (trim piece) = trim piece :=
    dropEndWhile_of_forall fun x hx => beq_false_of_ne fun h => hmem hslash (h ▸ hx)
  have hwords : words (trim (trim piece)) = words piece := by
    rw [words_trim (hmem hcomma), words_trim hcomma]
  rw [hdrop]
  by_cases hnil : words piece = []
  · rw [(trim_eq_nil_iff (hmem hcomma)).2 (by rw [words_trim hcomma, hnil]), hnil]
    rfl
  · have hne : trim (trim piece) ≠ [] := fun h => hnil (by rw [← hwords, h, words_nil])
    have hitem : trim (trim piece) ≠ ['*'] := fun h =>
      hmem hstar (mem_of_mem_trim (h ▸ List.mem_singleton_self _))
    rw [if_neg (by simpa using hne), ← hwords, nameSpecifier_of_words hitem (hwords ▸ hnil)]

/-- Names without a star and a backslash are those that their words say. -/
theorem nameSpecifiers_eq {names : List Char} (hstar : '*' ∉ plainNames names)
    (hslash : '\\' ∉ plainNames names) :
    nameSpecifiers names = (listedWords (plainNames names)).filterMap namedSpecifier? := by
  have hpieces : ∀ piece ∈ splitOn ',' (plainNames names),
      ',' ∉ piece ∧ '*' ∉ piece ∧ '\\' ∉ piece := fun piece h =>
    ⟨not_mem_of_mem_splitOn h, fun hc => hstar (mem_of_mem_splitOn h hc),
      fun hc => hslash (mem_of_mem_splitOn h hc)⟩
  rw [nameSpecifiers, listedWords]
  generalize splitOn ',' (plainNames names) = pieces at hpieces
  induction pieces with
  | nil => rfl
  | cons piece pieces ih =>
    obtain ⟨hcomma, hstar, hslash⟩ := hpieces piece List.mem_cons_self
    specialize ih fun other h => hpieces other (.tail _ h)
    rw [List.map_cons, List.map_cons, List.filter_cons, List.filterMap_cons,
      namedSpecifier?_piece hcomma hstar hslash]
    by_cases h : (trim (dropEndWhile (· == '\\') (trim piece))).isEmpty = true
    · rw [if_neg (by simpa using h), if_pos h]
      exact ih
    · rw [if_pos (by simpa using h), if_neg h, List.map_cons]
      exact congrArg _ ih

/-! ### The text of the names -/

section PlainNames

variable {names inner : List Char}

/-- The lines of a text without comments, put together. -/
theorem joinWith_uncommented {c : Char} (hc : c ≠ '\n') (h : '#' ∉ names ++ [c]) :
    joinWith [' '] ((lines (names ++ [c])).map fun line => line.takeWhile (· ≠ '#')) =
      onOneLine names ++ [c] := by
  have huncommented : ∀ line ∈ lines (names ++ [c]), line.takeWhile (· ≠ '#') = line := by
    intro line hline
    refine List.takeWhile_eq_self_iff.2 fun x hx => decide_eq_true fun hx' => h ?_
    exact hx' ▸ mem_of_mem_lines hline hx
  rw [List.map_congr_left huncommented, List.map_id', joinWith_lines hc]

theorem not_mem_onOneLine (h : ∀ c ∈ inner, isListPart c = true) {c : Char}
    (hc : isListPart c = false) : c ∉ onOneLine inner := by
  refine not_mem_of_isListPart (fun x hx => ?_) hc
  rcases mem_onOneLine hx with hx | rfl
  · exact h x hx
  · rfl

/-- Names in brackets are put on one line. -/
theorem plainNames_bracketed (h : ∀ c ∈ inner, isListPart c = true) :
    plainNames ('(' :: inner ++ [')']) = onOneLine inner := by
  have honeLine : ∀ {c}, isListPart c = false → ∀ x ∈ onOneLine inner, (x == c) = false :=
    fun hc x hx => beq_false_of_ne fun heq => not_mem_onOneLine h hc (heq ▸ hx)
  -- the lines of the list are joined, and nothing is taken for a comment
  have hjoined : joinWith [' '] ((lines ('(' :: inner ++ [')'])).map fun line =>
      line.takeWhile (· ≠ '#')) = ['('] ++ (onOneLine inner ++ [')']) := by
    rw [joinWith_uncommented (by decide)]
    · simp [onOneLine]
    · simp [not_mem_of_isListPart h (c := '#') rfl]
  -- the brackets keep the blanks from being trimmed, and go after that
  have htrim : trim (['('] ++ (onOneLine inner ++ [')'])) =
      ['('] ++ (onOneLine inner ++ [')']) := by
    have hend : Stops isSpace (['('] ++ (onOneLine inner ++ [')'])).reverse := by
      rw [← List.append_assoc, List.reverse_append]
      exact stops_cons.2 rfl
    rw [trim, trimWhile, List.singleton_append, List.dropWhile_cons_of_neg (by decide)]
    simpa using dropEndWhile_append_of_stops hend (List.forall_mem_nil _)
  have hopen : (['('] ++ (onOneLine inner ++ [')'])).dropWhile (· == '(') =
      onOneLine inner ++ [')'] := by
    refine dropWhile_append_of_stops (by simp) (stops_of_forall fun x hx => ?_)
    rcases List.mem_append.1 hx with hx | hx
    · exact honeLine rfl x hx
    · rw [List.mem_singleton.1 hx]
      rfl
  have hclose : Stops (· == ')') (onOneLine inner).reverse :=
    stops_of_forall fun x hx => honeLine rfl x (List.mem_reverse.1 hx)
  rw [plainNames, hjoined, htrim, hopen]
  exact dropEndWhile_append_of_stops hclose (by simp)

/-- Names on a line are trimmed. -/
theorem plainNames_line (hne : names ≠ []) (h : ∀ c ∈ names, isLinePart c = true) :
    plainNames names = trim names := by
  have hmem : ∀ {c}, isLinePart c = false → c ∉ names := fun hc hmem => by
    rw [h _ hmem] at hc
    cases hc
  have htrim : ∀ {c}, isLinePart c = false → ∀ x ∈ trim names, (x == c) = false :=
    fun hc x hx => beq_false_of_ne fun heq => hmem hc (heq ▸ mem_of_mem_trim hx)
  have hjoined :
      joinWith [' '] ((lines names).map fun line => line.takeWhile (· ≠ '#')) = names := by
    obtain ⟨init, c, rfl⟩ := (List.eq_nil_or_concat' names).resolve_left hne
    rw [joinWith_uncommented (fun hc => hmem (c := '\n') rfl (by simp [hc])) (hmem rfl),
      onOneLine_of_not_mem fun hinit => hmem rfl (List.mem_append_left _ hinit)]
  have hopen : (trim names).dropWhile (· == '(') = trim names :=
    dropWhile_append_of_stops (List.forall_mem_nil _) (stops_of_forall (htrim rfl))
  rw [plainNames, hjoined, hopen]
  exact dropEndWhile_of_forall (htrim rfl)

end PlainNames

theorem isSpace_of_isTrail {c : Char} (h : isTrail c = true) : isSpace c = true := by
  rw [isTrail, Bool.or_eq_true, beq_iff_eq] at h
  rcases h with h | rfl
  · exact isSpace_of_isBlank h
  · rfl

namespace Names

/-- The text that is read as the names, of a statement with `trail` behind it. -/
def covered (trail : Run isTrail) : Names → List Char
  | .star => '*' :: trail.1
  | .listed names => names.text NameItem.text ++ trail.1
  | .bracketed start names stop comma? => '(' :: inner start names stop comma? ++ [')']

/-- The text that is left on the line. -/
def left (trail : Run isTrail) : Names → List Char
  | .star => []
  | .listed _ => []
  | .bracketed .. => trail.1

theorem covered_append_left (trail : Run isTrail) (names : Names) :
    names.covered trail ++ names.left trail = names.text ++ trail.1 := by
  cases names with
  | star => exact List.append_nil _
  | listed names => exact List.append_nil _
  | bracketed start names stop comma? => rfl

theorem isListPart_inner (start : Run isSpace) (names : Listing isSpace (NameItem isSpace))
    (stop : Run isSpace) (comma? : Option (Run isSpace)) :
    ∀ c ∈ inner start names stop comma?, isListPart c = true := by
  intro c hc
  rw [inner, List.mem_append, List.mem_append, List.mem_append] at hc
  rcases hc with hc | hc | hc | hc
  · exact isListPart_of_isSpace (of_mem_run start hc)
  · exact isListPart_names (fun _ h => h) names c hc
  · exact isListPart_of_isSpace (of_mem_run stop hc)
  · cases comma? with
    | none => cases hc
    | some space =>
      rcases List.mem_cons.1 hc with rfl | hc
      · rfl
      · exact isListPart_of_isSpace (of_mem_run space hc)

theorem filterMap_words {space : Char → Bool} (items : List (NameItem space)) :
    (items.map NameItem.words).filterMap namedSpecifier? = items.map NameItem.specifier := by
  rw [List.filterMap_map, ← List.filterMap_eq_map]
  congr 1
  funext i
  exact namedSpecifier?_words i

/-- The blanks and the last comma inside brackets say nothing. -/
theorem listedWords_inner (start : Run isSpace) (names : Listing isSpace (NameItem isSpace))
    (stop : Run isSpace) (comma? : Option (Run isSpace)) :
    (listedWords (inner start names stop comma?)).filterMap namedSpecifier? =
      names.items.map NameItem.specifier := by
  -- the words behind the last name are none, and a comma there adds a piece without words
  have hrest : ∃ others, others.filterMap namedSpecifier? = [] ∧
      listedWords (stop.1 ++ comma?.elim [] fun space => ',' :: space.1) = [] :: others := by
    rw [listedWords_append_space fun _ => of_mem_run stop]
    cases comma? with
    | none => exact ⟨[], rfl, rfl⟩
    | some space =>
      refine ⟨[[]], rfl, ?_⟩
      rw [Option.elim_some, listedWords_comma, ← List.append_nil space.1,
        listedWords_append_space fun _ => of_mem_run space]
      rfl
  have hstops : Stops (!isBreak ·) (stop.1 ++ comma?.elim [] fun space => ',' :: space.1) := by
    refine stops_run (fun _ h => h) (fun c hc => by simp [hc]) stop ?_
    cases comma? with
    | none => exact stops_nil
    | some space => exact stops_cons.2 rfl
  obtain ⟨others, hothers, hrest⟩ := hrest
  rw [inner, listedWords_append_space fun _ => of_mem_run start,
    listedWords_names (fun _ h => h) names hstops hrest, List.filterMap_append, filterMap_words,
    hothers, List.append_nil]

theorem isLinePart_of_isTrail {c : Char} (h : isTrail c = true) : isLinePart c = true := by
  rw [isTrail, isBlank, Bool.or_eq_true, Bool.or_eq_true, beq_iff_eq, beq_iff_eq, beq_iff_eq] at h
  rcases h with (rfl | rfl) | rfl <;> rfl

theorem isLinePart_star (trail : Run isTrail) : ∀ c ∈ '*' :: trail.1, isLinePart c = true := by
  intro c hc
  rcases List.mem_cons.1 hc with rfl | hc
  · rfl
  · exact isLinePart_of_isTrail (of_mem_run trail hc)

theorem isLinePart_listed (trail : Run isTrail) (names : Listing isBlank (NameItem isBlank)) :
    ∀ c ∈ names.text NameItem.text ++ trail.1, isLinePart c = true := by
  intro c hc
  rcases List.mem_append.1 hc with hc | hc
  · refine forall_mem_names (P := (isLinePart · = true)) ?_ ?_ rfl names c hc
    · intro x hx
      refine isLinePart_of_isListPart (by rw [isListPart, hx, Bool.true_or]) fun hline => ?_
      rw [hline] at hx
      exact absurd hx (by decide)
    · intro x hx
      exact isLinePart_of_isTrail (by rw [isTrail, hx, Bool.true_or])
  · exact isLinePart_of_isTrail (of_mem_run trail hc)

theorem isSpace_trail (trail : Run isTrail) : ∀ c ∈ trail.1, isSpace c = true :=
  fun _ hc => isSpace_of_isTrail (of_mem_run trail hc)

/-- A star imports everything. -/
theorem nameSpecifiers_star (trail : Run isTrail) :
    nameSpecifiers ('*' :: trail.1) = [.namespaceAs "*"] := by
  have htrim : trim (['*'] ++ trail.1) = ['*'] := by
    have hstops : Stops isSpace ['*'].reverse := stops_cons.2 rfl
    rw [trim, trimWhile, List.singleton_append, List.dropWhile_cons_of_neg (by decide)]
    exact dropEndWhile_append_of_stops hstops (isSpace_trail trail)
  have hplain : plainNames ('*' :: trail.1) = ['*'] := by
    rw [plainNames_line (by simp) (isLinePart_star trail)]
    exact htrim
  rw [nameSpecifiers, hplain]
  rfl

/-- The names of a list without brackets are those of its items. -/
theorem nameSpecifiers_listed (trail : Run isTrail) (names : Listing isBlank (NameItem isBlank)) :
    nameSpecifiers (names.text NameItem.text ++ trail.1) = names.items.map NameItem.specifier := by
  have hparts : ∀ c ∈ names.text NameItem.text ++ trail.1, isListPart c = true := by
    intro c hc
    rcases List.mem_append.1 hc with hc | hc
    · exact isListPart_names (fun _ => isSpace_of_isBlank) names c hc
    · exact isListPart_of_isSpace (isSpace_trail trail c hc)
  have hplain : plainNames (names.text NameItem.text ++ trail.1) =
      trim (names.text NameItem.text ++ trail.1) :=
    plainNames_line (by simp [Listing.text, NameItem.text, names.first.isName.ne_nil])
      (isLinePart_listed trail names)
  have hmem : ∀ {c}, isListPart c = false → c ∉ plainNames (names.text NameItem.text ++ trail.1) :=
    fun hc h => not_mem_of_isListPart hparts hc (mem_of_mem_trim (hplain ▸ h))
  have hwords := listedWords_names (fun _ => isSpace_of_isBlank) names stops_nil listedWords_nil
  rw [List.append_nil, List.append_nil] at hwords
  rw [nameSpecifiers_eq (hmem rfl) (hmem rfl), hplain, listedWords_trim,
    (SameWords.append_space (isSpace_trail trail)).listedWords_eq, hwords, filterMap_words]

/-- The names of a list in brackets are those of its items. -/
theorem nameSpecifiers_bracketed (start : Run isSpace)
    (names : Listing isSpace (NameItem isSpace)) (stop : Run isSpace)
    (comma? : Option (Run isSpace)) :
    nameSpecifiers ('(' :: inner start names stop comma? ++ [')']) =
      names.items.map NameItem.specifier := by
  have hparts := isListPart_inner start names stop comma?
  have hplain := plainNames_bracketed hparts
  have hmem : ∀ {c}, isListPart c = false →
      c ∉ plainNames ('(' :: inner start names stop comma? ++ [')']) := fun hc => by
    rw [hplain]
    exact not_mem_onOneLine hparts hc
  rw [nameSpecifiers_eq (hmem rfl) (hmem rfl), hplain, (sameWords_onOneLine _).listedWords_eq,
    listedWords_inner]

/-- Every name of a statement is read, and nothing else. -/
theorem nameSpecifiers_covered (trail : Run isTrail) (names : Names) :
    nameSpecifiers (names.covered trail) = names.specifiers := by
  cases names with
  | star => exact nameSpecifiers_star trail
  | listed names => exact nameSpecifiers_listed trail names
  | bracketed start names stop comma? => exact nameSpecifiers_bracketed start names stop comma?

theorem specifiers_ne_nil (names : Names) : names.specifiers ≠ [] := by
  cases names with
  | star => simp [specifiers]
  | listed names => simp [specifiers, Listing.items]
  | bracketed start names stop comma? => simp [specifiers, Listing.items]

end Names

/-! ### Imports from a module are read back -/

theorem SourceName.isDotted_text (source : SourceName) : ∀ c ∈ source.text, isDotted c = true := by
  cases source with
  | absolute name => exact name.isDotted_text
  | relative more segments =>
    intro c hc
    rcases List.mem_append.1 hc with hc | hc
    · rw [List.eq_of_mem_replicate hc]
      decide
    · refine isDotted_of_mem_joinWith (fun s hs => ?_) c hc
      obtain ⟨segment, -, rfl⟩ := List.mem_map.1 hs
      exact segment.2

theorem SourceName.text_ne_nil (source : SourceName) : source.text ≠ [] := by
  cases source with
  | absolute name =>
    obtain ⟨c, cs, htext, -⟩ := name.exists_text_eq
    simp [SourceName.text, htext]
  | relative more segments => simp [SourceName.text, List.replicate_succ]

theorem fromModule_text (source : SourceName) {rest : List Char} (hrest : Stops isDotted rest) :
    fromModule (source.text ++ rest) = some (source.text, rest) := by
  cases source with
  | absolute name =>
    obtain ⟨c, cs, htext, hc⟩ := name.exists_text_eq
    rw [SourceName.text, fromModule]
    · exact name.dottedName_text hrest
    · intro inner heq
      rw [htext] at heq
      rw [(List.cons.inj heq).1] at hc
      exact absurd hc (by decide)
  | relative more segments =>
    have hdotted := SourceName.isDotted_text (.relative more segments)
    have htext : SourceName.text (.relative more segments) ++ rest =
        '.' :: (List.replicate more '.' ++ joinWith ['.'] (segments.map (·.1)) ++ rest) := rfl
    rw [htext, fromModule, ← htext, takeWhile_append_of_stops hdotted hrest,
      dropWhile_append_of_stops hdotted hrest]

section FromNames

variable {names rest : List Char}

theorem cutFirst_append_cons {c : Char} (h : c ∉ names) :
    cutFirst c (names ++ c :: rest) = some (names, rest) := by
  induction names with
  | nil => exact if_pos rfl
  | cons x names ih =>
    have hx : ¬ x = c := fun hx => h (hx ▸ List.mem_cons_self)
    rw [List.cons_append, cutFirst, if_neg hx, ih fun hmem => h (.tail _ hmem)]
    rfl

theorem fromNames_bracketed (gap : Gap isBlank) (h : ')' ∉ names) :
    fromNames (gap.1 ++ ('(' :: names ++ ')' :: rest)) = some ('(' :: names ++ [')'], rest) := by
  have hstops : Stops isBlank ('(' :: names ++ ')' :: rest) := stops_cons.2 rfl
  obtain ⟨blank, blanks, hgap⟩ := List.exists_cons_of_ne_nil gap.2.1
  rw [fromNames, takeWhile_append_of_stops (fun _ => of_mem_gap gap) hstops,
    dropWhile_append_of_stops (fun _ => of_mem_gap gap) hstops, hgap, List.cons_append]
  simp only [cutFirst_append_cons h, Option.map_some]

/-- Without a bracket the names go on to the end of the line. -/
theorem fromNames_line (gap : Gap isBlank) (hne : names ≠ []) (hstart : Stops isBlank names)
    (h : ∀ c ∈ names, isLinePart c = true) (hrest : Stops (· != '\n') rest) :
    fromNames (gap.1 ++ (names ++ rest)) = some (names, rest) := by
  obtain ⟨blank, blanks, hgap⟩ := List.exists_cons_of_ne_nil gap.2.1
  obtain ⟨c, cs, rfl⟩ := List.exists_cons_of_ne_nil hne
  have hnames : ∀ x ∈ c :: cs, isNameList x = true := fun x hx => by
    have := h x hx
    simp only [isLinePart, List.contains_cons] at this
    simp_all [isNameList]
  have hstop : Stops isNameList rest := fun x hx => by
    have := hrest x hx
    simp_all [isNameList]
  -- names that start with a bracket would be a list
  have hopen : c ≠ '(' := fun hc => by
    have := h c List.mem_cons_self
    rw [hc] at this
    cases this
  have hstart : Stops isBlank (c :: cs ++ rest) := stops_cons.2 (stops_cons.1 hstart)
  rw [fromNames, takeWhile_append_of_stops (fun _ => of_mem_gap gap) hstart,
    dropWhile_append_of_stops (fun _ => of_mem_gap gap) hstart, hgap,
    takeWhile_append_of_stops hnames hstop, dropWhile_append_of_stops hnames hstop,
    List.cons_append]
  dsimp only
  split
  · next hblanks => cases hblanks
  · next hfound _ =>
    split at hfound
    · next hc => exact absurd (List.cons.inj hc).1 hopen
    · cases hfound
  · next hnil => cases hnil
  · next hnil _ _ => cases hnil
  · rfl

theorem isBlank_of_isNamePart {c : Char} (h : isNamePart c = true) : isBlank c = false := by
  refine Bool.eq_false_iff.2 fun hblank => ?_
  have hspace := isSpace_of_isNamePart h
  rw [isSpace_of_isBlank hblank] at hspace
  cases hspace

theorem stops_isBlank_names (names : Listing isBlank (NameItem isBlank)) (rest : List Char) :
    Stops isBlank (names.text NameItem.text ++ rest) := by
  obtain ⟨c, cs, hname⟩ := List.exists_cons_of_ne_nil names.first.isName.ne_nil
  have hc : isNamePart c = true :=
    List.all_eq_true.1 names.first.isName.parts c (hname ▸ List.mem_cons_self)
  rw [Listing.text, NameItem.text, hname]
  exact stops_cons.2 (isBlank_of_isNamePart hc)

/-- The names of a statement are read as far as they are covered. -/
theorem fromNames_covered (gap : Gap isBlank) (trail : Run isTrail) (names : Names)
    (hrest : Stops (· != '\n') rest) :
    fromNames (gap.1 ++ (names.covered trail ++ (names.left trail ++ rest))) =
      some (names.covered trail, names.left trail ++ rest) := by
  cases names with
  | star =>
    exact fromNames_line gap (by simp [Names.covered]) (stops_cons.2 rfl)
      (Names.isLinePart_star trail) hrest
  | listed names =>
    refine fromNames_line gap ?_ (stops_isBlank_names names _) (Names.isLinePart_listed trail names)
      hrest
    simp [Names.covered, Listing.text, NameItem.text, names.first.isName.ne_nil]
  | bracketed start names stop comma? =>
    have hclose := not_mem_of_isListPart (Names.isListPart_inner start names stop comma?)
      (c := ')') rfl
    rw [Names.covered, List.append_assoc, List.singleton_append]
    exact fromNames_bracketed gap hclose

end FromNames

/-- An import from a module at the start of a line is recognised with the text of its names. -/
theorem fromStatement_text {before : Option Char} (hbefore : atLineStart before = true)
    (indent : Run isBlank) (gap : Gap isBlank) (source : SourceName) (ahead behind : Gap isBlank)
    (names : Names) (trail : Run isTrail) {rest : List Char} (hrest : Stops (· != '\n') rest) :
    fromStatement before (indent.1 ++
        ((Statement.selected gap source ahead behind names).text ++ (trail.1 ++ rest))) =
      some ((source.text, names.covered trail), names.left trail ++ rest) := by
  have htail : names.text ++ (trail.1 ++ rest) =
      names.covered trail ++ (names.left trail ++ rest) := by
    rw [← List.append_assoc, ← Names.covered_append_left, List.append_assoc]
  -- the parts are read in the order of the text, each up to the gap behind it
  have hindent :
      (indent.1 ++ ((Statement.selected gap source ahead behind names).text ++
        (trail.1 ++ rest))).dropWhile isBlank =
      "from".toList ++ (gap.1 ++ (source.text ++ (ahead.1 ++ ("import".toList ++
        (behind.1 ++ (names.covered trail ++ (names.left trail ++ rest))))))) := by
    rw [Statement.text_selected]
    simp only [List.append_assoc, htail]
    exact dropWhile_append_of_stops (fun _ => of_mem_run indent) (stops_cons.2 rfl)
  have hgap : ∀ cs,
      expectMany isBlank (gap.1 ++ (source.text ++ cs)) = some (source.text ++ cs) := by
    intro cs
    obtain ⟨c, more, htext⟩ := List.exists_cons_of_ne_nil source.text_ne_nil
    have hc : isDotted c = true := source.isDotted_text c (htext ▸ List.mem_cons_self)
    refine expectMany_append gap.2.1 (fun _ => of_mem_gap gap) ?_
    rw [htext]
    exact stops_isBlank_of_isDotted hc
  have hmodule : ∀ cs,
      fromModule (source.text ++ (ahead.1 ++ cs)) = some (source.text, ahead.1 ++ cs) := by
    intro cs
    exact fromModule_text source (stops_isDotted_gap ahead)
  have hahead : ∀ cs, expectMany isBlank (ahead.1 ++ ("import".toList ++ cs)) =
      some ("import".toList ++ cs) := fun cs =>
    expectMany_append ahead.2.1 (fun _ => of_mem_gap ahead) (stops_cons.2 rfl)
  simp only [fromStatement, hbefore, hindent, hgap, hmodule, hahead, expect_append,
    fromNames_covered behind trail names hrest, if_true, Option.bind_eq_bind, Option.bind_some,
    pure]

end DeadCode.Python
