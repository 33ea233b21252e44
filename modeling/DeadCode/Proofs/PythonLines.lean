import DeadCode.Proofs.LineSearch
import DeadCode.Proofs.PythonNames
import DeadCode.Proofs.Quoted

/-!
# DeadCode.Proofs.PythonLines

Python texts line by line. The imports of a text are read in two runs over its lines
(`imports_joinLines`). What such a run reads from the code of a line does not depend on the comment
or the line end behind it (`IsLocal`), with one exception: names in brackets go on up to the closing
bracket.
-/

namespace DeadCode.Python

open Text

/-! ### What stands behind the code of a line -/

/-- The characters that may stand behind the code of a line: they start a comment or a line end, or
close a list. -/
def halts : List Char := ['#', ')', '\r', '\n']

/-- The text does not go on with code. -/
def Halts (rest : List Char) : Prop := ∀ c ∈ rest.head?, c ∈ halts

/-- Whether all characters in `p` may belong to code. -/
def isOfCode (p : Char → Bool) : Bool := halts.all (!p ·)

section Local

variable {a b : List Char} {p : Char → Bool}

theorem Halts.stops (hp : isOfCode p = true) (hb : Halts b) : Stops p b := fun c hc => by
  simpa using List.all_eq_true.1 hp c (hb c hc)

theorem takeWhile_append_stops (hb : Stops p b) : (a ++ b).takeWhile p = a.takeWhile p := by
  induction a with
  | nil => simpa using takeWhile_append_of_stops (List.forall_mem_nil _) hb
  | cons c a ih => rw [List.cons_append, List.takeWhile_cons, List.takeWhile_cons, ih]

theorem dropWhile_append_stops (hb : Stops p b) : (a ++ b).dropWhile p = a.dropWhile p ++ b := by
  induction a with
  | nil => simpa using dropWhile_append_of_stops (List.forall_mem_nil _) hb
  | cons c a ih =>
    rw [List.cons_append, List.dropWhile_cons, List.dropWhile_cons, ih]
    split <;> rfl

/-- A word of code is expected in the code of a line only. -/
theorem expect_append_halts (word : String) (hword : isOfCode word.toList.contains = true)
    (hb : Halts b) : expect word (a ++ b) = (expect word a).map (· ++ b) := by
  have hstops : Stops word.toList.contains b := hb.stops hword
  unfold expect
  generalize word.toList = cs at hstops
  -- letter by letter; where the code ends within the word, the word does not go on behind it
  induction cs generalizing a with
  | nil => rfl
  | cons c cs ih =>
    have hrest : Stops cs.contains b := fun x hx => by
      have := hstops x hx
      simp_all
    cases a with
    | nil =>
      cases b with
      | nil => rfl
      | cons x b =>
        have hne : ¬ c = x := by
          have := stops_cons.1 hstops
          simp only [List.contains_cons, Bool.or_eq_false_iff, beq_eq_false_iff_ne] at this
          exact fun h => this.1 h.symm
        simp [dropPrefix?, hne]
    | cons x a =>
      rw [List.cons_append, dropPrefix?, dropPrefix?, ih hrest]
      split <;> rfl

theorem expectMany_append_halts (hp : isOfCode p = true) (hb : Halts b) :
    expectMany p (a ++ b) = (expectMany p a).map (· ++ b) := by
  have hstops : Stops p b := hb.stops hp
  cases a with
  | nil =>
    cases b with
    | nil => rfl
    | cons c b => simp [expectMany, expectIf, stops_cons.1 hstops]
  | cons c a =>
    rw [List.cons_append, expectMany, expectMany, expectIf, expectIf]
    split
    · simp [dropWhile_append_stops hstops]
    · rfl

/-- What is read from the code of a line does not depend on what stands behind the code. -/
def IsLocal {α : Type} (read : List Char → Option (α × List Char)) : Prop :=
  ∀ a {b}, Halts b → read (a ++ b) = (read a).map fun x => (x.1, x.2 ++ b)

theorem isLocal_takeName {first next : Char → Bool} (hfirst : isOfCode first = true)
    (hnext : isOfCode next = true) : IsLocal (takeName first next) := by
  intro a b hb
  cases a with
  | nil =>
    cases b with
    | nil => rfl
    | cons c b => simp [takeName, stops_cons.1 (hb.stops hfirst)]
  | cons c a =>
    rw [List.cons_append, takeName, takeName, takeWhile_append_stops (hb.stops hnext),
      dropWhile_append_stops (hb.stops hnext)]
    split <;> rfl

/-! ### Plain imports -/

theorem isLocal_dottedName : IsLocal dottedName := isLocal_takeName rfl rfl

theorem isLocal_alias? : IsLocal alias? := by
  intro a b hb
  have hname : IsLocal (takeName isWord isWord) := isLocal_takeName rfl rfl
  simp only [alias?, expectMany_append_halts (p := isBlank) rfl hb, Option.bind_eq_bind,
    Option.bind_map, Function.comp_def, expect_append_halts "as" rfl hb, hname _ hb,
    Option.map_bind]

theorem isLocal_importItem : IsLocal importItem := by
  intro a b hb
  rw [importItem, importItem, isLocal_dottedName a hb]
  cases dottedName a with
  | none => rfl
  | some found =>
    simp only [Option.map_some, isLocal_alias? _ hb]
    cases alias? found.2 <;> rfl

theorem importItems_of_none {cs inner : List Char} (hcs : cs.dropWhile isBlank = ',' :: inner)
    (hitem : importItem (inner.dropWhile isBlank) = none) (fuel : Nat) :
    importItems (fuel + 1) cs = ([], cs) := by
  rw [importItems, hcs]
  simp only [hitem]

/-- The items of a plain import end with the code of their line. -/
theorem importItems_append (fuel : Nat) (a : List Char) (hb : Halts b) :
    importItems fuel (a ++ b) = ((importItems fuel a).1, (importItems fuel a).2 ++ b) := by
  have hblanks : ∀ {x}, (x ++ b).dropWhile isBlank = x.dropWhile isBlank ++ b :=
    dropWhile_append_stops (hb.stops rfl)
  induction fuel generalizing a with
  | zero => rfl
  | succ fuel ih =>
    -- what follows the blanks decides, and past the end of `a` it is not a comma
    cases hcomma : a.dropWhile isBlank with
    | nil =>
      have hstop : Stops (· == ',') ((a ++ b).dropWhile isBlank) := by
        rw [hblanks, hcomma]
        exact hb.stops rfl
      rw [importItems_of_stops hstop, importItems_of_stops (hcomma ▸ stops_nil)]
    | cons c inner =>
      have hcomma' : (a ++ b).dropWhile isBlank = c :: (inner ++ b) := by
        rw [hblanks, hcomma]
        rfl
      by_cases hc : c = ','
      · subst hc
        have hitem := isLocal_importItem (inner.dropWhile isBlank) hb
        rw [← hblanks] at hitem
        cases hfirst : importItem (inner.dropWhile isBlank) with
        | none =>
          rw [hfirst] at hitem
          rw [importItems_of_none hcomma' hitem, importItems_of_none hcomma hfirst]
        | some first =>
          rw [hfirst] at hitem
          rw [importItems_of_comma hcomma' hitem, importItems_of_comma hcomma hfirst, ih]
      · have hstop : ∀ {cs}, Stops (· == ',') (c :: cs) := stops_cons.2 (by simpa using hc)
        rw [importItems_of_stops (hcomma' ▸ hstop), importItems_of_stops (hcomma ▸ hstop)]

end Local

/-! ### Where a statement ends -/

section Ends

variable {cs rest : List Char}

theorem suffix_of_expectMany {p : Char → Bool} (h : expectMany p cs = some rest) : rest <:+ cs := by
  cases cs with
  | nil => cases h
  | cons c cs =>
    rw [expectMany, expectIf] at h
    split at h
    · obtain rfl := Option.some.inj h
      exact (List.dropWhile_suffix p).trans (List.suffix_cons c cs)
    · cases h

theorem endsInLine_of_takeName {first next : Char → Bool} {name : List Char}
    (hfirst : first '\n' = false) (hnext : next '\n' = false)
    (h : takeName first next cs = some (name, rest)) : EndsInLine cs rest := by
  cases cs with
  | nil => cases h
  | cons c cs =>
    rw [takeName] at h
    split at h
    · next hc =>
      cases h
      have hline : '\n' ∉ c :: cs.takeWhile next := by
        intro hmem
        rcases List.mem_cons.1 hmem with rfl | hmem
        · rw [hfirst] at hc
          cases hc
        · have := List.mem_takeWhile_imp hmem
          rw [hnext] at this
          cases this
      have := EndsInLine.of_append (List.cons_ne_nil _ _) hline (cs.dropWhile next)
      rwa [List.cons_append, List.takeWhile_append_dropWhile] at this
    · cases h

theorem endsInLine_of_alias? {name : List Char} (h : alias? cs = some (name, rest)) :
    EndsInLine cs rest := by
  obtain ⟨gap, hgap, h⟩ := Option.bind_eq_some_iff.1 h
  obtain ⟨word, hword, h⟩ := Option.bind_eq_some_iff.1 h
  obtain ⟨gap', hgap', h⟩ := Option.bind_eq_some_iff.1 h
  exact (endsInLine_of_takeName rfl rfl h).of_suffix ((suffix_of_expectMany hgap').trans
    ((Script.suffix_of_expect hword).trans (suffix_of_expectMany hgap)))

theorem endsInLine_of_importItem {item : List Char × Option (List Char)}
    (h : importItem cs = some (item, rest)) : EndsInLine cs rest := by
  unfold importItem at h
  split at h
  · next name behind hname =>
    have hends : EndsInLine cs behind := endsInLine_of_takeName rfl rfl hname
    split at h
    · next as _ halias =>
      cases h
      exact (endsInLine_of_alias? halias).of_suffix hends.suffix
    · cases h
      exact hends
  · cases h

/-- Either no further item follows, whatever the fuel, or there is a first one, and the others are
read behind it. -/
theorem importItems_cases (cs : List Char) :
    (∀ fuel, importItems fuel cs = ([], cs)) ∨
      ∃ item rest, EndsInLine cs rest ∧ ∀ fuel, importItems (fuel + 1) cs =
        (item :: (importItems fuel rest).1, (importItems fuel rest).2) := by
  by_cases hstop : Stops (· == ',') (cs.dropWhile isBlank)
  · exact .inl (importItems_of_stops hstop)
  · cases hcomma : cs.dropWhile isBlank with
    | nil => exact absurd (hcomma ▸ stops_nil) hstop
    | cons c inner =>
      obtain rfl : c = ',' := by simpa [hcomma, stops_cons] using hstop
      have hsuffix : inner.dropWhile isBlank <:+ cs :=
        (List.dropWhile_suffix _).trans ((List.suffix_cons ',' inner).trans
          (hcomma ▸ List.dropWhile_suffix _))
      cases hitem : importItem (inner.dropWhile isBlank) with
      | none =>
        refine .inl fun fuel => ?_
        cases fuel with
        | zero => rfl
        | succ fuel => exact importItems_of_none hcomma hitem fuel
      | some found =>
        exact .inr ⟨found.1, found.2, (endsInLine_of_importItem hitem).of_suffix hsuffix,
          importItems_of_comma hcomma hitem⟩

/-- Any fuel will do that is enough for one step per character. -/
theorem importItems_fuel {fuel fuel' : Nat} (hfuel : cs.length ≤ fuel)
    (hfuel' : cs.length ≤ fuel') : importItems fuel cs = importItems fuel' cs := by
  induction fuel generalizing fuel' cs with
  | zero =>
    obtain rfl : cs = [] := List.length_eq_zero_iff.1 (by omega)
    rw [importItems_of_stops stops_nil, importItems_of_stops stops_nil]
  | succ fuel ih =>
    rcases importItems_cases cs with hnone | ⟨item, rest, hends, hsome⟩
    · rw [hnone, hnone]
    · have hlength := hends.length_lt
      obtain ⟨fuel', rfl⟩ : ∃ n, fuel' = n + 1 :=
        Nat.exists_eq_succ_of_ne_zero (by omega)
      have hrest : importItems fuel rest = importItems fuel' rest := ih (by omega) (by omega)
      rw [hsome, hsome, hrest]

theorem endsInLine_importItems (fuel : Nat) (h : EndsInLine cs rest) :
    EndsInLine cs (importItems fuel rest).2 := by
  induction fuel generalizing rest with
  | zero => exact h
  | succ fuel ih =>
    rcases importItems_cases rest with hnone | ⟨item, rest', hends, hsome⟩
    · rw [hnone]
      exact h
    · rw [hsome]
      exact ih (hends.of_suffix h.suffix)

/-- The steps in which a plain import is read. -/
theorem importStatement_eq (before : Option Char) (cs : List Char) :
    importStatement before cs = if atLineStart before then
      (expect "import" (cs.dropWhile isBlank)).bind fun cs =>
        (expectMany isBlank cs).bind fun cs => (importItem cs).map fun found =>
          (found.1 :: (importItems found.2.length found.2).1,
            (importItems found.2.length found.2).2) else none := by
  simp only [importStatement, Option.bind_eq_bind, Option.map_eq_bind]
  rfl

/-- Plain imports start at the start of a line and end within one. -/
theorem readsStatements_import : ReadsStatements importStatement (importStatement none) where
  recognise_eq before cs := by
    rw [importStatement_eq, importStatement_eq]
    rfl
  ends h := by
    rw [importStatement_eq] at h
    obtain ⟨word, hword, h⟩ := Option.bind_eq_some_iff.1 h
    obtain ⟨gap, hgap, h⟩ := Option.bind_eq_some_iff.1 h
    obtain ⟨found, hfound, heq⟩ := Option.map_eq_some_iff.1 h
    cases heq
    have hitem : EndsInLine gap found.2 := endsInLine_of_importItem hfound
    have hsuffix := (suffix_of_expectMany hgap).trans
      ((Script.suffix_of_expect hword).trans (List.dropWhile_suffix _))
    exact endsInLine_importItems _ (hitem.of_suffix hsuffix)

theorem isLocal_importStatement : IsLocal (importStatement none) := by
  intro a b hb
  have hblanks : (a ++ b).dropWhile isBlank = a.dropWhile isBlank ++ b :=
    dropWhile_append_stops (hb.stops rfl)
  have hitems : ∀ cs, importItems (cs ++ b).length (cs ++ b) =
      ((importItems cs.length cs).1, (importItems cs.length cs).2 ++ b) := by
    intro cs
    have hfuel : importItems (cs ++ b).length cs = importItems cs.length cs :=
      importItems_fuel (by simp) (Nat.le_refl _)
    rw [importItems_append _ _ hb, hfuel]
  simp only [importStatement_eq, atLineStart, Option.all_none, if_true, hblanks,
    expect_append_halts "import" rfl hb, expectMany_append_halts (p := isBlank) rfl hb,
    isLocal_importItem _ hb, Option.bind_map, Function.comp_def, Option.map_bind, Option.map_map,
    hitems]

/-! ### Imports from a module -/

theorem fromModule_of_stops {cs : List Char} (h : Stops (· == '.') cs) :
    fromModule cs = dottedName cs := by
  unfold fromModule
  split
  · cases stops_cons.1 h
  · rfl

theorem isLocal_fromModule : IsLocal fromModule := by
  intro a b hb
  have hdotted : Stops isDotted b := hb.stops rfl
  cases a with
  | nil =>
    rw [List.nil_append, fromModule_of_stops (hb.stops rfl), fromModule_of_stops stops_nil]
    exact isLocal_dottedName [] hb
  | cons c a =>
    by_cases hc : c = '.'
    · subst hc
      rw [List.cons_append, fromModule, fromModule, ← List.cons_append,
        takeWhile_append_stops hdotted, dropWhile_append_stops hdotted]
      rfl
    · have hstop : ∀ {cs}, Stops (· == '.') (c :: cs) := stops_cons.2 (by simpa using hc)
      rw [List.cons_append, fromModule_of_stops hstop, fromModule_of_stops hstop]
      exact isLocal_dottedName (c :: a) hb

theorem suffix_of_fromModule {name : List Char} (h : fromModule cs = some (name, rest)) :
    rest <:+ cs := by
  unfold fromModule at h
  split at h
  · cases h
    exact List.dropWhile_suffix _
  · exact (endsInLine_of_takeName rfl rfl h).suffix

/-- What stands before the names of an import from a module: its module, and the text behind it. -/
def fromHead (cs : List Char) : Option (List Char × List Char) :=
  (expect "from" (cs.dropWhile isBlank)).bind fun cs => (expectMany isBlank cs).bind fun cs =>
    (fromModule cs).bind fun found => (expectMany isBlank found.2).bind fun cs =>
      (expect "import" cs).map fun cs => (found.1, cs)

theorem fromStatement_eq (before : Option Char) (cs : List Char) :
    fromStatement before cs = if atLineStart before then
      (fromHead cs).bind fun head => (fromNames head.2).map fun found =>
        ((head.1, found.1), found.2) else none := by
  simp only [fromStatement, fromHead, Option.bind_eq_bind, Option.map_eq_bind, Option.bind_assoc]
  rfl

theorem isLocal_fromHead : IsLocal fromHead := by
  intro a b hb
  have hblanks : (a ++ b).dropWhile isBlank = a.dropWhile isBlank ++ b :=
    dropWhile_append_stops (hb.stops rfl)
  simp only [fromHead, hblanks, expect_append_halts "from" rfl hb,
    expect_append_halts "import" rfl hb, expectMany_append_halts (p := isBlank) rfl hb,
    isLocal_fromModule _ hb, Option.bind_map, Function.comp_def, Option.map_bind, Option.map_map]

theorem suffix_of_fromHead {name : List Char} (h : fromHead cs = some (name, rest)) :
    rest <:+ cs := by
  obtain ⟨word, hword, h⟩ := Option.bind_eq_some_iff.1 h
  obtain ⟨gap, hgap, h⟩ := Option.bind_eq_some_iff.1 h
  obtain ⟨found, hfound, h⟩ := Option.bind_eq_some_iff.1 h
  obtain ⟨gap', hgap', h⟩ := Option.bind_eq_some_iff.1 h
  obtain ⟨word', hword', heq⟩ := Option.map_eq_some_iff.1 h
  cases heq
  exact (Script.suffix_of_expect hword').trans ((suffix_of_expectMany hgap').trans
    ((suffix_of_fromModule hfound).trans ((suffix_of_expectMany hgap).trans
      ((Script.suffix_of_expect hword).trans (List.dropWhile_suffix _)))))

theorem cutFirst_of_not_mem {c : Char} (h : c ∉ cs) : cutFirst c cs = none := by
  induction cs with
  | nil => rfl
  | cons x xs ih =>
    rw [List.mem_cons, not_or] at h
    rw [cutFirst, if_neg fun hx => h.1 hx.symm, ih h.2]
    rfl

theorem fromNames_of_no_blank (h : cs.takeWhile isBlank = []) : fromNames cs = none := by
  unfold fromNames
  rw [h]

/-- The names of a list go on up to its closing bracket. -/
theorem fromNames_of_list {names : List Char} (hblank : cs.takeWhile isBlank ≠ [])
    (hlist : cs.dropWhile isBlank = '(' :: names ++ ')' :: rest) (hnames : ')' ∉ names) :
    fromNames cs = some ('(' :: names ++ [')'], rest) := by
  have hgap : (cs.takeWhile isBlank).all isBlank = true :=
    List.all_eq_true.2 fun _ => List.mem_takeWhile_imp
  have hread : fromNames (cs.takeWhile isBlank ++ ('(' :: names ++ ')' :: rest)) =
      some ('(' :: names ++ [')'], rest) :=
    fromNames_bracketed ⟨cs.takeWhile isBlank, hblank, hgap⟩ hnames
  rwa [← hlist, List.takeWhile_append_dropWhile] at hread

/-- Where no list is closed, the names stand on the line. If there are none, one of the blanks may
be taken for them. -/
theorem fromNames_of_line (hblank : cs.takeWhile isBlank ≠ [])
    (hline : ∀ inner, cs.dropWhile isBlank = '(' :: inner → ')' ∉ inner) :
    (fromNames cs = some ((cs.dropWhile isBlank).takeWhile isNameList,
        (cs.dropWhile isBlank).dropWhile isNameList)) ∨
      (cs.dropWhile isBlank).takeWhile isNameList = [] ∧
        (fromNames cs = none ∨ ∃ b, isBlank b = true ∧
          fromNames cs = some ([b], cs.dropWhile isBlank)) := by
  have hblanks : ∀ b ∈ cs.takeWhile isBlank, isBlank b = true := fun _ => List.mem_takeWhile_imp
  -- the cases of `fromNames` for the blanks and for what stands behind them
  unfold fromNames
  generalize cs.takeWhile isBlank = blanks at hblank hblanks ⊢
  generalize cs.dropWhile isBlank = behind at hline ⊢
  dsimp only
  split
  · exact absurd rfl hblank
  · next hfound =>
    split at hfound
    · next inner =>
      rw [cutFirst_of_not_mem (hline inner rfl)] at hfound
      cases hfound
    · cases hfound
  -- no name: the only blank cannot stand for the names as well
  · next hnames => exact .inr ⟨hnames, .inl rfl⟩
  · next hnames =>
    obtain ⟨init, b, rfl⟩ := (List.eq_nil_or_concat' _).resolve_left hblank
    exact .inr ⟨hnames, .inr ⟨b, hblanks b (by simp), by simp⟩⟩
  · exact .inl rfl

/-- The names end where their bracket closes or within their line. -/
theorem endsInLine_of_fromNames {names : List Char} (h : fromNames cs = some (names, rest)) :
    EndsInLine cs rest := by
  by_cases hblank : cs.takeWhile isBlank = []
  · rw [fromNames_of_no_blank hblank] at h
    cases h
  have hblanks : '\n' ∉ cs.takeWhile isBlank := fun hmem => by
    cases List.mem_takeWhile_imp hmem
  -- a list in brackets ends with its bracket, on whatever line that is
  by_cases hlist : ∃ inner, cs.dropWhile isBlank = '(' :: inner ∧ ')' ∈ inner
  · obtain ⟨inner, hinner, hmem⟩ := hlist
    obtain ⟨names', rest', rfl, hnames⟩ := List.eq_append_cons_of_mem hmem
    rw [fromNames_of_list hblank hinner hnames] at h
    cases h
    have hends : EndsInLine (cs.dropWhile isBlank) rest :=
      ⟨'(' :: names', ')', by rw [hinner]; simp, by decide⟩
    exact hends.of_suffix (List.dropWhile_suffix _)
  · have hline : ∀ inner, cs.dropWhile isBlank = '(' :: inner → ')' ∉ inner :=
      fun inner hinner hmem => hlist ⟨inner, hinner, hmem⟩
    -- otherwise what is read has no line end: names, nothing, or a blank in place of the names
    rcases fromNames_of_line hblank hline with hnames | ⟨-, hnone | ⟨b, -, hsome⟩⟩
    · rw [hnames] at h
      cases h
      have hread : '\n' ∉ cs.takeWhile isBlank ++ (cs.dropWhile isBlank).takeWhile isNameList := by
        intro hmem
        rcases List.mem_append.1 hmem with hmem | hmem
        · exact hblanks hmem
        · cases List.mem_takeWhile_imp hmem
      have hends := EndsInLine.of_append (by simp [hblank]) hread
        ((cs.dropWhile isBlank).dropWhile isNameList)
      rwa [List.append_assoc, List.takeWhile_append_dropWhile,
        List.takeWhile_append_dropWhile] at hends
    · rw [hnone] at h
      cases h
    · rw [hsome] at h
      cases h
      have hends := EndsInLine.of_append hblank hblanks (cs.dropWhile isBlank)
      rwa [List.takeWhile_append_dropWhile] at hends

/-- Selected imports start at the start of a line and end within one. -/
theorem readsStatements_from : ReadsStatements fromStatement (fromStatement none) where
  recognise_eq before cs := by
    rw [fromStatement_eq, fromStatement_eq]
    rfl
  ends h := by
    rw [fromStatement_eq] at h
    obtain ⟨head, hhead, h⟩ := Option.bind_eq_some_iff.1 h
    obtain ⟨found, hfound, heq⟩ := Option.map_eq_some_iff.1 h
    cases heq
    exact (endsInLine_of_fromNames hfound).of_suffix (suffix_of_fromHead hhead)

end Ends

/-! ### Steps of a run over the lines -/

/-- What a plain import stands for. -/
def plain (line : Nat) (items : List (List Char × Option (List Char))) : List Import :=
  items.map (moduleImport line)

/-- What an import from a module stands for. -/
def selected (line : Nat) (statement : List Char × List Char) : List Import :=
  (namesImport line statement).toList

/-- Where no name is left of the names, there is no import. -/
theorem selected_of_plainNames {names : List Char} (h : plainNames names = []) (line : Nat)
    (name : List Char) : selected line (name, names) = [] := by
  have hnone : nameSpecifiers names = [] := by
    rw [nameSpecifiers, h]
    rfl
  rw [selected, namesImport, hnone]
  rfl

theorem selected_nil (line : Nat) (name : List Char) : selected line (name, []) = [] :=
  selected_of_plainNames (by decide) line name

theorem selected_blank (line : Nat) (name : List Char) {b : Char} (hb : isBlank b = true) :
    selected line (name, [b]) = [] := by
  rw [isBlank, Bool.or_eq_true, beq_iff_eq, beq_iff_eq] at hb
  rcases hb with rfl | rfl
  · exact selected_of_plainNames (by decide) line name
  · exact selected_of_plainNames (by decide) line name

theorem newlines_dropWhile {p : Char → Bool} (hp : p '\n' = false) (cs : List Char) :
    newlines (cs.dropWhile p) = newlines cs := by
  have htaken : '\n' ∉ cs.takeWhile p := fun hmem => by
    rw [List.mem_takeWhile_imp hmem] at hp
    cases hp
  have hsum := newlines_append (cs.takeWhile p) (cs.dropWhile p)
  rw [List.takeWhile_append_dropWhile, newlines_eq_zero htaken, Nat.zero_add] at hsum
  exact hsum.symm

section Steps

variable {code behind tail name : List Char}

theorem newlines_of_suffix (hcode : '\n' ∉ code) (h : behind <:+ code) :
    newlines (code ++ tail) = newlines (behind ++ tail) := by
  have hbehind : '\n' ∉ behind := fun hmem => hcode (h.subset hmem)
  rw [newlines_append, newlines_append, newlines_eq_zero hcode, newlines_eq_zero hbehind]

/-- A plain import is read from the code of its line. -/
theorem readStep_import (line : Nat) (hcode : '\n' ∉ code) (htail : Halts tail) :
    readStep (importStatement none) plain line (code ++ tail) =
      (((importStatement none code).toList.flatMap fun found => plain line found.1), 0) := by
  rw [readStep, isLocal_importStatement code htail]
  cases hread : importStatement none code with
  | none => rfl
  | some found =>
    have hsuffix := (readsStatements_import.ends hread).suffix
    simp [newlines_of_suffix hcode hsuffix]

theorem readStep_from_of_none (line : Nat) (htail : Halts tail) (hhead : fromHead code = none) :
    readStep (fromStatement none) selected line (code ++ tail) = ([], 0) := by
  rw [readStep, fromStatement_eq, isLocal_fromHead code htail, hhead]
  rfl

variable (hcode : '\n' ∉ code) (htail : Halts tail) (hhead : fromHead code = some (name, behind))

include hcode htail hhead

theorem readStep_from (line : Nat) :
    readStep (fromStatement none) selected line (code ++ tail) =
      (fromNames (behind ++ tail)).elim ([], 0) fun found =>
        (selected line (name, found.1), newlines (behind ++ tail) - newlines found.2) := by
  rw [readStep, fromStatement_eq, isLocal_fromHead code htail, hhead,
    newlines_of_suffix hcode (suffix_of_fromHead hhead)]
  simp only [atLineStart, Option.all_none, if_true, Option.map_some, Option.bind_some]
  cases fromNames (behind ++ tail) <;> rfl

theorem readStep_from_of_no_blank (line : Nat) (hblank : behind.takeWhile isBlank = []) :
    readStep (fromStatement none) selected line (code ++ tail) = ([], 0) := by
  rw [readStep_from hcode htail hhead, fromNames_of_no_blank]
  · rfl
  · rwa [takeWhile_append_stops (htail.stops rfl)]

/-- The names of a list are read up to its closing bracket, however many lines they take. -/
theorem readStep_from_of_list (line : Nat) {names rest : List Char}
    (hblank : behind.takeWhile isBlank ≠ [])
    (hlist : behind.dropWhile isBlank ++ tail = '(' :: names ++ ')' :: rest)
    (hnames : ')' ∉ names) :
    readStep (fromStatement none) selected line (code ++ tail) =
      (selected line (name, '(' :: names ++ [')']), newlines names) := by
  have htake := takeWhile_append_stops (a := behind) (htail.stops (p := isBlank) rfl)
  have hdrop := dropWhile_append_stops (a := behind) (htail.stops (p := isBlank) rfl)
  rw [← htake] at hblank
  rw [← hdrop] at hlist
  have hlines : newlines (behind ++ tail) = newlines names + newlines rest := by
    rw [← newlines_dropWhile (p := isBlank) rfl, hlist]
    simp [newlines]
  rw [readStep_from hcode htail hhead, fromNames_of_list hblank hlist hnames, hlines]
  simp

/-- Where no list is closed, the names on the line are read. -/
theorem readStep_from_of_line (line : Nat) (hblank : behind.takeWhile isBlank ≠ [])
    (hline : ∀ inner, behind.dropWhile isBlank ++ tail = '(' :: inner → ')' ∉ inner) :
    readStep (fromStatement none) selected line (code ++ tail) =
      (selected line (name, (behind.dropWhile isBlank ++ tail).takeWhile isNameList), 0) := by
  have htake := takeWhile_append_stops (a := behind) (htail.stops (p := isBlank) rfl)
  have hdrop := dropWhile_append_stops (a := behind) (htail.stops (p := isBlank) rfl)
  rw [← htake] at hblank
  rw [← hdrop] at hline
  have hlines := newlines_dropWhile (p := isBlank) rfl (behind ++ tail)
  rw [readStep_from hcode htail hhead, ← hdrop]
  rcases fromNames_of_line hblank hline with hnames | ⟨hnil, hnone | ⟨b, hb, hsome⟩⟩
  · rw [hnames, Option.elim_some, newlines_dropWhile rfl, hlines, Nat.sub_self]
  · rw [hnone, hnil, selected_nil]
    rfl
  · rw [hsome, Option.elim_some, hlines, Nat.sub_self, hnil, selected_nil,
      selected_blank line name hb]

end Steps

/-! ### The imports of a text -/

theorem imports_scan (text : String) :
    (scan text).imports = imports (.ofText text.toList) text.toList :=
  foldl_frame ModuleSyntax.addExport ModuleSyntax.imports ModuleSyntax.imports_addExport _ _

/-- The imports of a text are those that two runs over its lines read, by line. -/
theorem imports_joinLines {ls : List (List Char)} (hls : ∀ l ∈ ls, '\n' ∉ l) :
    (scan (.ofList (joinLines ls))).imports =
      (readLines (importStatement none) plain 0 1 ls ++
        readLines (fromStatement none) selected 0 1 ls).mergeSort fun a b => a.line ≤ b.line := by
  have hplain := readsStatements_import.flatMap_findsFrom_eq_readLines plain hls [] rfl
  have hselected := readsStatements_from.flatMap_findsFrom_eq_readLines selected hls [] rfl
  rw [imports_scan, String.toList_ofList, imports, List.filterMap_eq_flatMap_toList]
  exact congrArg₂ (fun xs ys => (xs ++ ys).mergeSort fun a b => a.line ≤ b.line) hplain hselected

end DeadCode.Python
