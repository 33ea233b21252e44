import DeadCode.Proofs.PythonNames
import DeadCode.Proofs.Quoted

/-!
# DeadCode.Proofs.PythonImports

The imports of a Python text that consists of import statements. The two kinds of statements are
searched one after the other over the whole text, so each search has to pass over the statements of
the other kind: over the words `from` and `import` in one line, and over the names in brackets,
which may start any number of lines. The finds are then put in the order of their lines, by a sort
that keeps the order within a line. Main result: `imports_scan_moduleText`.
-/

namespace DeadCode

/-! ### Sorting by a number -/

section Sorting

variable {α : Type} (key : α → Nat)

theorem keyLe_trans : ∀ a b c : α, decide (key a ≤ key b) = true → decide (key b ≤ key c) = true →
    decide (key a ≤ key c) = true := by
  simp only [decide_eq_true_eq]
  omega

theorem keyLe_total : ∀ a b : α, (decide (key a ≤ key b) || decide (key b ≤ key a)) = true := by
  simp only [Bool.or_eq_true, decide_eq_true_eq]
  omega

/-- A sort keeps the order of the elements with the same number. -/
theorem filter_mergeSort (xs : List α) (k : Nat) :
    (xs.mergeSort fun a b => key a ≤ key b).filter (key · = k) = xs.filter (key · = k) := by
  have hsame : (xs.filter (key · = k)).Pairwise fun a b => decide (key a ≤ key b) = true := by
    refine List.pairwise_of_forall_mem_list fun a ha b hb => ?_
    have ha := of_decide_eq_true (List.mem_filter.1 ha).2
    have hb := of_decide_eq_true (List.mem_filter.1 hb).2
    exact decide_eq_true (by omega)
  have hsublist := List.sublist_mergeSort (keyLe_trans key) (keyLe_total key) hsame
    List.filter_sublist
  replace hsublist := hsublist.filter fun a => decide (key a = k)
  rw [List.filter_filter] at hsublist
  simp only [Bool.and_self] at hsublist
  refine (hsublist.eq_of_length ?_).symm
  exact (((List.mergeSort_perm xs _).filter _).length_eq).symm

theorem mem_of_filter_eq {xs ys : List α} (h : ∀ k, xs.filter (key · = k) = ys.filter (key · = k))
    {z : α} (hz : z ∈ xs) : z ∈ ys := by
  have hfilter : z ∈ xs.filter (key · = key z) := List.mem_filter.2 ⟨hz, by simp⟩
  rw [h] at hfilter
  exact (List.mem_filter.1 hfilter).1

/-- Lists in increasing order are determined by their elements with each number. -/
theorem eq_of_filter_eq {xs ys : List α} (hxs : xs.Pairwise fun a b => key a ≤ key b)
    (hys : ys.Pairwise fun a b => key a ≤ key b)
    (h : ∀ k, xs.filter (key · = k) = ys.filter (key · = k)) : xs = ys := by
  induction xs generalizing ys with
  | nil =>
    cases ys with
    | nil => rfl
    | cons y ys =>
      have hy := mem_of_filter_eq key (fun k => (h k).symm) List.mem_cons_self
      exact absurd hy List.not_mem_nil
  | cons x xs ih =>
    cases ys with
    | nil => exact absurd (mem_of_filter_eq key h List.mem_cons_self) (by simp)
    | cons y ys =>
      -- both heads have the least key, so they are the first of the same filter
      have hle : key y ≤ key x := by
        rcases List.mem_cons.1 (mem_of_filter_eq key h List.mem_cons_self) with heq | hx
        · rw [heq]
        · exact (List.pairwise_cons.1 hys).1 x hx
      have hge : key x ≤ key y := by
        rcases List.mem_cons.1 (mem_of_filter_eq key (fun k => (h k).symm) List.mem_cons_self) with
          heq | hy
        · rw [heq]
        · exact (List.pairwise_cons.1 hxs).1 y hy
      have hhead := h (key x)
      rw [List.filter_cons_of_pos (by simp),
        List.filter_cons_of_pos (by simpa using Nat.le_antisymm hle hge)] at hhead
      obtain ⟨rfl, htail⟩ := List.cons.inj hhead
      refine congrArg _ (ih (List.pairwise_cons.1 hxs).2 (List.pairwise_cons.1 hys).2 fun k => ?_)
      by_cases hk : key x = k
      · rw [← hk]
        exact htail
      · have := h k
        rwa [List.filter_cons_of_neg (by simpa using hk),
          List.filter_cons_of_neg (by simpa using hk)] at this

/-- Sorting is stable, so it is determined by the order and by what stands under each key. -/
theorem mergeSort_eq_of_filter {xs ys : List α} (hys : ys.Pairwise fun a b => key a ≤ key b)
    (h : ∀ k, xs.filter (key · = k) = ys.filter (key · = k)) :
    (xs.mergeSort fun a b => key a ≤ key b) = ys := by
  have hsorted : (xs.mergeSort fun a b => key a ≤ key b).Pairwise fun a b => key a ≤ key b := by
    have := List.pairwise_mergeSort (keyLe_trans key) (keyLe_total key) xs
    simpa only [decide_eq_true_eq] using this
  exact eq_of_filter_eq key hsorted hys fun k => by rw [filter_mergeSort, h]

end Sorting

namespace Python

open Text

/-! ### What opens a statement -/

theorem exists_of_expectMany {p : Char → Bool} {cs rest : List Char}
    (h : expectMany p cs = some rest) : ∃ c cs', cs = c :: cs' ∧ p c = true := by
  cases cs with
  | nil => cases h
  | cons c cs =>
    by_cases hc : p c = true
    · exact ⟨c, cs, rfl, hc⟩
    · rw [expectMany, expectIf, if_neg hc] at h
      cases h

theorem opens_of_expect {word : String} {cs after rest : List Char}
    (hword : expect word (cs.dropWhile isBlank) = some after)
    (hblank : expectMany isBlank after = some rest) : Opens word.toList cs := by
  obtain ⟨blank, inner, rfl, hb⟩ := exists_of_expectMany hblank
  exact ⟨blank, inner, hb, dropPrefix?_eq_some_iff.1 hword⟩

/-- A recogniser that starts with a word and blanks behind it, at the start of a line. -/
theorem isLineRecogniser_of_expect {α : Type} {recognise : Recogniser α} {word : String}
    {next : List Char → Option (α × List Char)}
    (h : ∀ before cs, recognise before cs = if atLineStart before then
      (expect word (cs.dropWhile isBlank)).bind fun cs => (expectMany isBlank cs).bind next
      else none) : IsLineRecogniser recognise word.toList where
  lineStart hfound := by
    rw [h] at hfound
    split at hfound
    · assumption
    · cases hfound
  opens hfound := by
    rw [h] at hfound
    split at hfound
    · obtain ⟨after, hword, hfound⟩ := Option.bind_eq_some_iff.1 hfound
      obtain ⟨rest, hblank, -⟩ := Option.bind_eq_some_iff.1 hfound
      exact opens_of_expect hword hblank
    · cases hfound

theorem isLineRecogniser_import : IsLineRecogniser importStatement "import".toList :=
  isLineRecogniser_of_expect fun _ _ => rfl

theorem isLineRecogniser_from : IsLineRecogniser fromStatement "from".toList :=
  isLineRecogniser_of_expect fun _ _ => rfl

theorem isNamePart_of_isBreak (c : Char) (h : isBreak c = true) : isNamePart c = false :=
  Bool.eq_false_iff.2 fun hpart => by
    rw [isBreak_of_isNamePart hpart] at h
    cases h

theorem stops_isNamePart_alias (a : Option (Alias isSpace IsListedName)) {rest : List Char}
    (hrest : Stops isNamePart rest) : Stops isNamePart (aliasText a ++ rest) := by
  cases a with
  | none => exact hrest
  | some a =>
    rw [aliasText, Option.elim_some, Alias.text, List.append_assoc, List.append_assoc,
      List.append_assoc]
    exact stops_gap (fun _ h => h) isNamePart_of_isBreak a.before

/-- The word opens a statement: it is written like a name, but none. -/
structure IsOpener (word : List Char) : Prop where
  ne_nil : word ≠ []
  parts : ∀ c ∈ word, isNamePart c = true
  noName : ∀ {cs}, IsListedName cs → cs ≠ word

theorem isOpener_import : IsOpener "import".toList where
  ne_nil := by decide
  parts := List.all_eq_true.1 (by decide)
  noName := IsListedName.ne_import

theorem isOpener_from : IsOpener "from".toList where
  ne_nil := by decide
  parts := List.all_eq_true.1 (by decide)
  noName := IsListedName.ne_from

namespace IsOpener

variable {word rest : List Char} (h : IsOpener word)

include h

theorem isSpace_eq_false : ∀ c ∈ word, isSpace c = false :=
  fun c hc => isSpace_of_isNamePart (h.parts c hc)

/-- A name does not open a statement. -/
theorem not_opens_name {name : List Char} (hname : IsListedName name)
    (hrest : Stops isNamePart rest) : ¬ Opens word (name ++ rest) := by
  intro hopens
  refine h.noName hname (eq_of_opens hname.ne_nil (fun x hx => ?_) (fun x hx hword => ?_) hopens)
  · exact isSpace_of_isNamePart (List.all_eq_true.1 hname.parts x hx)
  · have := hrest x hx
    rw [h.parts x hword] at this
    cases this

theorem not_opens_mark {c : Char} (hblank : isBlank c = false) (hc : isNamePart c = false) :
    ¬ Opens word (c :: rest) := by
  refine not_opens_cons h.ne_nil hblank fun hword => ?_
  rw [h.parts c hword] at hc
  cases hc

theorem not_opens_item (i : NameItem isSpace) (hrest : Stops isNamePart rest) :
    ¬ Opens word (i.text ++ rest) := by
  rw [NameItem.text, List.append_assoc]
  exact h.not_opens_name i.isName (stops_isNamePart_alias i.alias? hrest)

end IsOpener

/-! ### Names in brackets are passed over -/

section Pass

variable {α : Type} {recognise : Recogniser α} {word rest : List Char} {before : Option Char}
  (h : IsLineRecogniser recognise word) (hword : IsOpener word)

include h hword

theorem passes_space {as : List Char} (has : ∀ x ∈ as, isSpace x = true)
    (hopens : ¬ Opens word rest) : Passes recognise before as rest :=
  h.passes_space hword.ne_nil hword.isSpace_eq_false has hopens

theorem passes_name {name : List Char} (hname : IsListedName name) (hrest : Stops isNamePart rest) :
    Passes recognise before name rest := by
  refine h.passes_line (fun hmem => ?_) (hword.not_opens_name hname hrest)
  exact absurd (List.all_eq_true.1 hname.parts _ hmem) (by decide)

theorem passes_mark {c : Char} (hc : c ≠ '\n') (hblank : isBlank c = false)
    (hpart : isNamePart c = false) : Passes recognise before [c] rest :=
  h.passes_line (by simpa using hc.symm) (hword.not_opens_mark hblank hpart)

theorem passes_alias (a : Alias isSpace IsListedName) (hrest : Stops isNamePart rest) :
    Passes recognise before a.text rest := by
  have hbefore : ∀ c ∈ a.before.1, isSpace c = true := fun _ => of_mem_gap a.before
  have hbehind : ∀ c ∈ a.behind.1, isSpace c = true := fun _ => of_mem_gap a.behind
  have has : Stops isNamePart (a.behind.1 ++ (a.name ++ rest)) :=
    stops_gap (fun _ h => h) isNamePart_of_isBreak a.behind
  refine (((passes_space h hword hbefore ?_).append ?_).append ?_).append ?_
  · exact hword.not_opens_name isListedName_as has
  · exact passes_name h hword isListedName_as has
  · exact passes_space h hword hbehind (hword.not_opens_name a.isName hrest)
  · exact passes_name h hword a.isName hrest

/-- No statement is recognised inside an imported name. -/
theorem passes_item (i : NameItem isSpace) (hrest : Stops isNamePart rest) :
    Passes recognise before i.text rest := by
  refine (passes_name h hword i.isName (stops_isNamePart_alias i.alias? hrest)).append ?_
  cases i.alias? with
  | none => exact .nil
  | some a => exact passes_alias h hword a hrest

/-- No statement is recognised inside the names behind the first. -/
theorem passes_others (items : List (Run isSpace × Run isSpace × NameItem isSpace))
    (hrest : Stops isNamePart rest) :
    Passes recognise before (items.flatMap (Listing.behindComma NameItem.text)) rest := by
  induction items generalizing before with
  | nil => exact .nil
  | cons item items ih =>
    have hstops := stops_others (fun _ h => h) isNamePart_of_isBreak items hrest
    have hcomma : ∀ cs, ¬ Opens word (',' :: cs) := fun _ => hword.not_opens_mark rfl rfl
    refine .append (.append (passes_space h hword (fun _ => of_mem_run item.1) (hcomma _)) ?_) ih
    show Passes recognise _ ([','] ++ (item.2.1.1 ++ item.2.2.text)) _
    refine .append (passes_mark h hword (by decide) rfl rfl) ?_
    refine .append (passes_space h hword (fun _ => of_mem_run item.2.1) ?_) ?_
    · exact hword.not_opens_item item.2.2 hstops
    · exact passes_item h hword item.2.2 hstops

/-- Names in brackets are passed over, with the bracket behind them. -/
theorem passes_bracketed (start : Run isSpace) (names : Listing isSpace (NameItem isSpace))
    (stop : Run isSpace) (comma? : Option (Run isSpace)) :
    Passes recognise before (Names.inner start names stop comma? ++ [')']) rest := by
  have hclose : ¬ Opens word (')' :: rest) := hword.not_opens_mark rfl rfl
  -- what follows each run of blanks is a name or a mark, and neither opens a statement
  have hstop : ¬ Opens word ((comma?.elim [] fun space => ',' :: space.1) ++ ([')'] ++ rest)) := by
    cases comma? with
    | none => exact hclose
    | some space => exact hword.not_opens_mark rfl rfl
  have hnames : Stops isNamePart
      ((stop.1 ++ comma?.elim [] fun space => ',' :: space.1) ++ ([')'] ++ rest)) := by
    rw [List.append_assoc]
    refine stops_run (fun _ h => h) isNamePart_of_isBreak stop ?_
    cases comma? with
    | none => exact stops_cons.2 rfl
    | some space => exact stops_cons.2 rfl
  have hothers := stops_others (fun _ h => h) isNamePart_of_isBreak names.others hnames
  refine .append (.append ?_ (.append ?_ (.append ?_ ?_))) ?_
  · refine passes_space h hword (fun _ => of_mem_run start) ?_
    rw [Listing.text, List.append_assoc, List.append_assoc]
    exact hword.not_opens_item names.first hothers
  · exact .append (passes_item h hword names.first hothers) (passes_others h hword _ hnames)
  · exact passes_space h hword (fun _ => of_mem_run stop) hstop
  · cases comma? with
    | none => exact .nil
    | some space =>
      show Passes recognise _ ([','] ++ space.1) _
      refine .append (passes_mark h hword (by decide) rfl rfl) ?_
      exact passes_space h hword (fun _ => of_mem_run space) hclose
  · exact passes_mark h hword (by decide) rfl rfl

end Pass

/-! ### Statements in a text -/

namespace Block

/-- The modules that a plain statement is read with. -/
def modules? : Block → Option (List (List Char × Option (List Char)))
  | .statement _ (.plain _ modules) _ => some (modules.items.map (·.parts))
  | _ => none

/-- The module and the names that the other kind of statement is read with. -/
def names? : Block → Option (List Char × List Char)
  | .statement _ (.selected _ source _ _ names) trail => some (source.text, names.covered trail)
  | _ => none

end Block

/-- The finds of a recogniser in a text of blocks are the values of its blocks. -/
structure ReadsBlocks {α : Type} (recognise : Recogniser α) (value? : Block → Option α) : Prop where
  block : ∀ (b : Block) {before rest} (offset : Nat), atLineStart before = true →
    Stops (· != '\n') rest →
      findsFrom recognise 0 before offset (b.text ++ rest) = (value? b).toList.map (⟨offset, ·⟩) ++
        findsFrom recognise 0 (lastOf before b.text) (offset + byteLength b.text) rest
  newline : ∀ before offset rest, findsFrom recognise 0 before offset ('\n' :: rest) =
    findsFrom recognise 0 (some '\n') (offset + 1) rest

section Reads

variable {α : Type} {recognise : Recogniser α} {word rest : List Char} {before : Option Char}

theorem IsOpener.not_opens_lineEnd (hword : IsOpener word) (hrest : Stops (· != '\n') rest) :
    ¬ Opens word rest := by
  cases rest with
  | nil =>
    intro h
    obtain ⟨blank, after, -, heq⟩ := h
    simp at heq
  | cons c rest =>
    have hc : c = '\n' := by simpa using stops_cons.1 hrest
    subst hc
    exact hword.not_opens_mark rfl rfl

theorem findsFrom_newline (h : IsLineRecogniser recognise word) (hword : IsOpener word)
    (before : Option Char) (offset : Nat) (rest : List Char) :
    findsFrom recognise 0 before offset ('\n' :: rest) =
      findsFrom recognise 0 (some '\n') (offset + 1) rest := by
  have hnone : recognise before ('\n' :: ([] ++ rest)) = none :=
    Option.eq_none_iff_forall_ne_some.2 fun found hfound =>
      hword.not_opens_mark rfl rfl (h.opens hfound)
  exact Passes.cons hnone .nil offset

theorem passes_blank (h : IsLineRecogniser recognise word) (hword : IsOpener word)
    (space : Run isSpace) (hrest : Stops (· != '\n') rest) :
    Passes recognise before space.1 rest :=
  passes_space h hword (fun _ => of_mem_run space) (hword.not_opens_lineEnd hrest)

theorem passes_trail (h : IsLineRecogniser recognise word) (hword : IsOpener word)
    (trail : Run isTrail) (hrest : Stops (· != '\n') rest) :
    Passes recognise before trail.1 rest :=
  passes_space h hword (Names.isSpace_trail trail) (hword.not_opens_lineEnd hrest)

theorem newline_not_mem {p : Char → Bool} {cs : List Char} (hp : p '\n' = false)
    (h : ∀ c ∈ cs, p c = true) : '\n' ∉ cs := fun hmem => by
  rw [h _ hmem] at hp
  cases hp

theorem newline_not_mem_run {p : Char → Bool} (hp : p '\n' = false) (run : Run p) :
    '\n' ∉ run.1 :=
  newline_not_mem hp fun _ => of_mem_run run

theorem newline_not_mem_gap {p : Char → Bool} (hp : p '\n' = false) (gap : Gap p) :
    '\n' ∉ gap.1 :=
  newline_not_mem hp fun _ => of_mem_gap gap

end Reads

theorem newline_not_mem_modules (modules : Listing isBlank ModuleItem) :
    '\n' ∉ modules.text ModuleItem.text := by
  have hblank : ∀ c, isBlank c = true → c ≠ '\n' := fun c hc h => by
    rw [h] at hc
    cases hc
  have hdotted : ∀ c, isDotted c = true → c ≠ '\n' := fun c hc h => by
    rw [h] at hc
    exact absurd hc (by decide)
  intro hmem
  refine modules.forall_mem_text hblank (by decide) (fun i c hc => ?_) '\n' hmem rfl
  rcases List.mem_append.1 hc with hc | hc
  · exact hdotted c (i.name.isDotted_text c hc)
  · refine forall_mem_aliasText hblank ?_ (fun name h x hx => hdotted x (h.isDotted x hx)) _ c hc
    exact fun x hx h => absurd (h ▸ hx) (by decide)

/-- What stands before the names of an import from a module. -/
def header (gap : Gap isBlank) (source : SourceName) (ahead behind : Gap isBlank) : List Char :=
  "from".toList ++ (gap.1 ++ (source.text ++ (ahead.1 ++ ("import".toList ++ behind.1))))

theorem text_selected_eq_header (gap : Gap isBlank) (source : SourceName)
    (ahead behind : Gap isBlank) (names : Names) :
    Statement.text (.selected gap source ahead behind names) =
      header gap source ahead behind ++ names.text := by
  simp only [Statement.text_selected, header, List.append_assoc]

theorem newline_not_mem_header (gap : Gap isBlank) (source : SourceName)
    (ahead behind : Gap isBlank) : '\n' ∉ header gap source ahead behind := by
  have hfrom : '\n' ∉ "from".toList := by decide
  have himport : '\n' ∉ "import".toList := by decide
  have hsource : '\n' ∉ source.text := newline_not_mem (by decide) source.isDotted_text
  simp only [header, List.mem_append, hfrom, himport, hsource, newline_not_mem_gap rfl gap,
    newline_not_mem_gap rfl ahead, newline_not_mem_gap rfl behind, or_self, not_false_eq_true]

theorem not_opens_import (indent : Run isBlank) (cs : List Char) :
    ¬ Opens "import".toList (indent.1 ++ ("from".toList ++ cs)) := fun h =>
  not_opens_cons isOpener_import.ne_nil (c := 'f') rfl (by decide)
    (h.of_append_space isOpener_import.ne_nil isOpener_import.isSpace_eq_false
      fun _ hc => isSpace_of_isBlank (of_mem_run indent hc))

theorem not_opens_from (indent : Run isBlank) (cs : List Char) :
    ¬ Opens "from".toList (indent.1 ++ ("import".toList ++ cs)) := fun h =>
  not_opens_cons isOpener_from.ne_nil (c := 'i') rfl (by decide)
    (h.of_append_space isOpener_from.ne_nil isOpener_from.isSpace_eq_false
      fun _ hc => isSpace_of_isBlank (of_mem_run indent hc))

section Blocks

variable {before : Option Char} {rest : List Char} (indent : Run isBlank) (trail : Run isTrail)

/-- A plain import is passed over in the search for imports from modules. -/
theorem passes_plain (gap : Gap isBlank) (modules : Listing isBlank ModuleItem) :
    Passes fromStatement before
      (Block.text (.statement indent (.plain gap modules) trail)) rest := by
  have himport : '\n' ∉ "import".toList := by decide
  rw [Block.text, Statement.text_plain]
  refine isLineRecogniser_from.passes_line ?_ ?_
  · simp only [List.mem_append, himport, newline_not_mem_run rfl indent,
      newline_not_mem_gap rfl gap, newline_not_mem_modules, newline_not_mem_run rfl trail,
      or_self, not_false_eq_true]
  · simp only [List.append_assoc]
    exact not_opens_from indent _

/-- Names on the line of their statement are passed over with it. -/
theorem passes_header {cs : List Char} (gap : Gap isBlank) (source : SourceName)
    (ahead behind : Gap isBlank) (hcs : '\n' ∉ cs) :
    Passes importStatement before (indent.1 ++ (header gap source ahead behind ++ cs)) rest := by
  refine isLineRecogniser_import.passes_line ?_ ?_
  · simp only [List.mem_append, newline_not_mem_run rfl indent, newline_not_mem_header, hcs,
      or_self, not_false_eq_true]
  · simp only [header, List.append_assoc]
    exact not_opens_import indent _

/-- An import from a module is passed over in the search for plain imports. -/
theorem passes_selected (gap : Gap isBlank) (source : SourceName) (ahead behind : Gap isBlank)
    (names : Names) (hrest : Stops (· != '\n') rest) :
    Passes importStatement before
      (Block.text (.statement indent (.selected gap source ahead behind names) trail)) rest := by
  rw [Block.text, text_selected_eq_header, List.append_assoc]
  cases names with
  | star =>
    exact passes_header indent gap source ahead behind
      (newline_not_mem rfl (Names.isLinePart_star trail))
  | listed names =>
    exact passes_header indent gap source ahead behind
      (newline_not_mem rfl (Names.isLinePart_listed trail names))
  | bracketed start names stop comma? =>
    have hbracket : indent.1 ++ (header gap source ahead behind ++
        (Names.text (.bracketed start names stop comma?) ++ trail.1)) =
          indent.1 ++ (header gap source ahead behind ++ ['(']) ++
            (Names.inner start names stop comma? ++ [')'] ++ trail.1) := by
      simp [Names.text]
    rw [hbracket]
    refine .append (passes_header indent gap source ahead behind (by decide)) (.append ?_ ?_)
    · exact passes_bracketed isLineRecogniser_import isOpener_import start names stop comma?
    · exact passes_trail isLineRecogniser_import isOpener_import trail hrest

/-- Behind a statement, nothing but the end of a line follows its blanks. -/
theorem mem_head?_trail (hrest : Stops (· != '\n') rest) {c : Char}
    (hc : c ∈ ((trail.1 ++ rest).dropWhile isBlank).head?) : c = '\r' ∨ c = '\n' := by
  obtain ⟨cs, hcs⟩ := trail
  induction cs with
  | nil =>
    cases rest with
    | nil => cases hc
    | cons x rest =>
      have hx : x = '\n' := by simpa using stops_cons.1 hrest
      subst hx
      exact .inr (Option.some.inj hc).symm
  | cons x cs ih =>
    obtain ⟨hx, hcs⟩ := Bool.and_eq_true_iff.1 hcs
    by_cases hblank : isBlank x = true
    · rw [List.cons_append, List.dropWhile_cons_of_pos hblank] at hc
      exact ih hcs hc
    · rw [List.cons_append, List.dropWhile_cons_of_neg hblank] at hc
      have hreturn := (Bool.or_eq_true_iff.1 hx).resolve_left hblank
      exact .inl (Option.some.inj hc ▸ beq_iff_eq.1 hreturn)

theorem endsList_trail (hrest : Stops (· != '\n') rest) : EndsList (trail.1 ++ rest) where
  endsItem c hc := by
    rcases mem_head?_trail trail hrest hc with rfl | rfl <;> decide
  noComma c hc := by
    rcases mem_head?_trail trail hrest hc with rfl | rfl <;> rfl

theorem passes_left {α : Type} {recognise : Recogniser α} {word : List Char}
    (h : IsLineRecogniser recognise word) (hword : IsOpener word) (names : Names)
    (hrest : Stops (· != '\n') rest) : Passes recognise before (names.left trail) rest := by
  cases names with
  | star => exact .nil
  | listed names => exact .nil
  | bracketed start names stop comma? => exact passes_trail h hword trail hrest

end Blocks

/-- The recogniser of plain imports sees them and passes over all other blocks. -/
theorem readsBlocks_import : ReadsBlocks importStatement Block.modules? where
  block b before rest offset hbefore hrest := by
    cases b with
    | blank space => exact passes_blank isLineRecogniser_import isOpener_import space hrest offset
    | statement indent s trail =>
      cases s with
      | plain gap modules =>
        have hread := importStatement_text hbefore indent gap modules (endsList_trail trail hrest)
        rw [← List.append_assoc] at hread
        rw [Block.text, ← List.append_assoc]
        refine findsFrom_of_recognised_append ?_ hread ?_ offset
        · simp [Statement.text_plain]
        · exact passes_trail isLineRecogniser_import isOpener_import trail hrest
      | selected gap source ahead behind names =>
        exact passes_selected indent trail gap source ahead behind names hrest offset
  newline := findsFrom_newline isLineRecogniser_import isOpener_import

/-- The recogniser of selected imports sees them and passes over all other blocks. -/
theorem readsBlocks_from : ReadsBlocks fromStatement Block.names? where
  block b before rest offset hbefore hrest := by
    cases b with
    | blank space => exact passes_blank isLineRecogniser_from isOpener_from space hrest offset
    | statement indent s trail =>
      cases s with
      | plain gap modules => exact passes_plain indent trail gap modules offset
      | selected gap source ahead behind names =>
        have htext :
            Block.text (.statement indent (.selected gap source ahead behind names) trail) =
              indent.1 ++ (header gap source ahead behind ++ names.covered trail) ++
              names.left trail := by
          rw [Block.text, text_selected_eq_header, List.append_assoc, ← names.covered_append_left]
          simp only [List.append_assoc]
        have hread := fromStatement_text hbefore indent gap source ahead behind names trail hrest
        have hwhole : indent.1 ++ ((Statement.selected gap source ahead behind names).text ++
            (trail.1 ++ rest)) = indent.1 ++ (header gap source ahead behind ++
              names.covered trail) ++ (names.left trail ++ rest) := by
          rw [← List.append_assoc (_ ++ _), ← htext, Block.text]
          simp only [List.append_assoc]
        rw [hwhole] at hread
        rw [htext]
        refine findsFrom_of_recognised_append ?_ hread ?_ offset
        · simp [header]
        · exact passes_left trail isLineRecogniser_from isOpener_from names hrest
  newline := findsFrom_newline isLineRecogniser_from isOpener_from

/-! ### The finds of a text -/

section Finds

variable {α : Type} {recognise : Recogniser α} {value? : Block → Option α}

/-- What the values of the blocks stand for, with the line of each block. -/
def collect (value? : Block → Option α) (meaning : Nat → α → List Import) :
    Nat → List Block → List Import
  | _, [] => []
  | line, block :: blocks =>
    (value? block).toList.flatMap (meaning line) ++
      collect value? meaning (line + newlines block.text + 1) blocks

theorem moduleText_cons (block : Block) (blocks : List Block) :
    moduleText (block :: blocks) = block.text ++ blocks.flatMap ('\n' :: ·.text) := by
  rw [moduleText, List.map_cons, joinWith_cons, List.flatMap_map]
  rfl

/-- The finds in the blocks behind `ahead` have the lines on which the blocks start. -/
theorem flatMap_findsFrom (h : ReadsBlocks recognise value?) (meaning : Nat → α → List Import)
    (blocks : List Block) (ahead : List Char) (hahead : atLineStart (lastOf none ahead) = true) :
    (findsFrom recognise 0 (lastOf none ahead) (byteLength ahead) (moduleText blocks)).flatMap
        (fun found => meaning
          ((LineIndex.ofText (ahead ++ moduleText blocks)).lineAt found.offset) found.value) =
      collect value? meaning (newlines ahead + 1) blocks := by
  induction blocks generalizing ahead with
  | nil => rfl
  | cons block blocks ih =>
    have hrest : Stops (· != '\n') (blocks.flatMap ('\n' :: ·.text)) := by
      cases blocks with
      | nil => exact stops_nil
      | cons next blocks => exact stops_cons.2 rfl
    have hline := LineIndex.lineAt_ofText ahead (moduleText (block :: blocks))
    rw [moduleText_cons] at hline ⊢
    rw [h.block block (byteLength ahead) hahead hrest, List.flatMap_append, List.flatMap_map,
      collect]
    dsimp only
    rw [hline]
    refine congrArg _ ?_
    cases blocks with
    | nil => rfl
    | cons next blocks =>
      -- the search goes on behind the line feed, on the line of the next block
      have hnext := ih (ahead ++ block.text ++ ['\n']) (by simp [lastOf, atLineStart])
      have htext :
          (next :: blocks).flatMap ('\n' :: ·.text) = '\n' :: moduleText (next :: blocks) := by
        rw [moduleText_cons]
        rfl
      have hwhole : ahead ++ block.text ++ ['\n'] ++ moduleText (next :: blocks) =
          ahead ++ (block.text ++ '\n' :: moduleText (next :: blocks)) := by simp
      have hlast : lastOf none (ahead ++ block.text ++ ['\n']) = some '\n' := by simp [lastOf]
      have hbytes : byteLength (ahead ++ block.text ++ ['\n']) =
          byteLength ahead + byteLength block.text + 1 := by
        rw [byteLength_append, byteLength_append]
        rfl
      have hlines : newlines (ahead ++ block.text ++ ['\n']) + 1 =
          newlines ahead + 1 + newlines block.text + 1 := by
        rw [newlines_append, newlines_append, show newlines ['\n'] = 1 from rfl]
        omega
      rw [hlast, hbytes, hwhole, hlines] at hnext
      rw [htext, h.newline]
      exact hnext

end Finds

/-! ### The imports of a text -/

theorem moduleImport_parts (line : Nat) (i : ModuleItem) :
    moduleImport line i.parts =
      ⟨.ofList i.name.text, [.namespaceAs (.ofList i.bound)], .static, line⟩ := by
  rw [moduleImport, ModuleItem.parts]
  dsimp only
  rw [i.name.takeWhile_text]
  rfl

theorem namesImport_covered (line : Nat) (source : SourceName) (names : Names)
    (trail : Run isTrail) :
    namesImport line (source.text, names.covered trail) =
      some ⟨.ofList source.text, names.specifiers, .static, line⟩ := by
  rw [namesImport]
  dsimp only
  rw [names.nameSpecifiers_covered]
  split
  · next hnil => exact absurd hnil names.specifiers_ne_nil
  · rfl

section Lines

variable {α : Type} {value? : Block → Option α} {meaning : Nat → α → List Import}

/-- What is collected from a line on stands on that line or on a later one. -/
theorem line_le_of_mem_collect (h : ∀ line value, ∀ i ∈ meaning line value, i.line = line)
    {line : Nat} {blocks : List Block} {i : Import} (hi : i ∈ collect value? meaning line blocks) :
    line ≤ i.line := by
  induction blocks generalizing line with
  | nil => cases hi
  | cons block blocks ih =>
    rcases List.mem_append.1 hi with hi | hi
    · obtain ⟨value, -, hi⟩ := List.mem_flatMap.1 hi
      exact Nat.le_of_eq (h line value i hi).symm
    · have := ih hi
      omega

/-- Imports are collected in the order of their lines. -/
theorem pairwise_collect (h : ∀ line value, ∀ i ∈ meaning line value, i.line = line) (line : Nat)
    (blocks : List Block) :
    (collect value? meaning line blocks).Pairwise fun i j => i.line ≤ j.line := by
  induction blocks generalizing line with
  | nil => exact .nil
  | cons block blocks ih =>
    have hblock : ∀ i ∈ (value? block).toList.flatMap (meaning line), i.line = line := by
      intro i hi
      obtain ⟨value, -, hi⟩ := List.mem_flatMap.1 hi
      exact h line value i hi
    refine List.pairwise_append.2 ⟨?_, ih _, fun i hi j hj => ?_⟩
    · refine List.pairwise_of_forall_mem_list fun i hi j hj => ?_
      rw [hblock i hi, hblock j hj]
    · have := line_le_of_mem_collect h hj
      rw [hblock i hi]
      omega

end Lines

theorem line_of_mem_imports {line : Nat} {block : Block} {i : Import} (h : i ∈ block.imports line) :
    i.line = line := by
  cases block with
  | blank space => cases h
  | statement indent s trail =>
    cases s with
    | plain gap modules =>
      obtain ⟨item, -, rfl⟩ := List.mem_map.1 h
      rfl
    | selected gap source ahead behind names =>
      rw [List.mem_singleton.1 h]

theorem importsFrom_eq_collect (line : Nat) (blocks : List Block) :
    importsFrom line blocks = collect some (fun line block => block.imports line) line blocks := by
  induction blocks generalizing line with
  | nil => rfl
  | cons block blocks ih => rw [importsFrom, collect, ih]; simp

/-- The plain imports of the blocks. -/
def plainImports : Nat → List Block → List Import :=
  collect Block.modules? fun line modules => modules.map (moduleImport line)

/-- The imports from modules of the blocks. -/
def selectedImports : Nat → List Block → List Import :=
  collect Block.names? fun line names => (namesImport line names).toList

theorem line_le_of_mem_plainImports {line : Nat} {blocks : List Block} {i : Import}
    (h : i ∈ plainImports line blocks) : line ≤ i.line := by
  refine line_le_of_mem_collect (fun line modules i hi => ?_) h
  obtain ⟨item, -, rfl⟩ := List.mem_map.1 hi
  rfl

/-- The imports of a block are found by one of the two searches. -/
theorem imports_block (line : Nat) (block : Block) (blocks : List Block) :
    (plainImports line (block :: blocks) =
        block.imports line ++ plainImports (line + newlines block.text + 1) blocks ∧
      selectedImports line (block :: blocks) =
        selectedImports (line + newlines block.text + 1) blocks) ∨
    (plainImports line (block :: blocks) = plainImports (line + newlines block.text + 1) blocks ∧
      selectedImports line (block :: blocks) =
        block.imports line ++ selectedImports (line + newlines block.text + 1) blocks) := by
  -- each block is seen by one of the two searches at most
  cases block with
  | blank space => exact .inl ⟨rfl, rfl⟩
  | statement indent s trail =>
    cases s with
    | plain gap modules =>
      refine .inl ⟨?_, rfl⟩
      have hmodules : (modules.items.map (·.parts)).map (moduleImport line) =
          Block.imports line (.statement indent (.plain gap modules) trail) := by
        rw [List.map_map]
        exact List.map_congr_left fun i _ => moduleImport_parts line i
      rw [plainImports, collect, Block.modules?, Option.toList_some, List.flatMap_singleton,
        hmodules]
    | selected gap source ahead behind names =>
      refine .inr ⟨rfl, ?_⟩
      rw [selectedImports, collect, Block.names?, Option.toList_some, List.flatMap_singleton,
        namesImport_covered]
      rfl

/-- Line by line, the two searches find the imports in the order of the blocks. -/
theorem filter_imports (line : Nat) (blocks : List Block) (k : Nat) :
    (plainImports line blocks ++ selectedImports line blocks).filter (·.line = k) =
      (importsFrom line blocks).filter (·.line = k) := by
  induction blocks generalizing line with
  | nil => rfl
  | cons block blocks ih =>
    have hrest := ih (line + newlines block.text + 1)
    rw [List.filter_append] at hrest
    rw [importsFrom, List.filter_append, List.filter_append, ← hrest]
    rcases imports_block line block blocks with ⟨hplain, hselected⟩ | ⟨hplain, hselected⟩
    · rw [hplain, hselected, List.filter_append, List.append_assoc]
    · rw [hplain, hselected, List.filter_append]
      -- the plain imports of later blocks stand on later lines
      by_cases hk : line = k
      · have hnone :
            (plainImports (line + newlines block.text + 1) blocks).filter (·.line = k) = [] := by
          refine List.filter_eq_nil_iff.2 fun i hi => ?_
          have := line_le_of_mem_plainImports hi
          simp only [decide_eq_true_eq]
          omega
        rw [hnone, List.nil_append, List.nil_append]
      · have hnone : (block.imports line).filter (·.line = k) = [] := by
          refine List.filter_eq_nil_iff.2 fun i hi => ?_
          rw [line_of_mem_imports hi]
          simpa using hk
        rw [hnone, List.nil_append, List.nil_append]

/-- The imports of a module are those of its blocks in order. The two searches find them kind by
kind, and sorting by lines puts them together again. -/
theorem imports_moduleText (blocks : List Block) :
    imports (.ofText (moduleText blocks)) (moduleText blocks) = importsFrom 1 blocks := by
  have hplain : ((finds importStatement (moduleText blocks)).flatMap fun found =>
      found.value.map (moduleImport ((LineIndex.ofText (moduleText blocks)).lineAt found.offset))) =
        plainImports 1 blocks :=
    flatMap_findsFrom readsBlocks_import (fun line modules => modules.map (moduleImport line))
      blocks [] rfl
  have hselected : ((finds fromStatement (moduleText blocks)).flatMap fun found => Option.toList
      (namesImport ((LineIndex.ofText (moduleText blocks)).lineAt found.offset) found.value)) =
        selectedImports 1 blocks :=
    flatMap_findsFrom readsBlocks_from (fun line names => (namesImport line names).toList)
      blocks [] rfl
  have hsorted : (importsFrom 1 blocks).Pairwise fun i j => i.line ≤ j.line := by
    rw [importsFrom_eq_collect]
    exact pairwise_collect (fun line block i => line_of_mem_imports) 1 blocks
  rw [imports, hplain, List.filterMap_eq_flatMap_toList, hselected]
  exact mergeSort_eq_of_filter Import.line hsorted (filter_imports 1 blocks)

/-- The imports of a text of import statements are those of its statements, in their order and with
their lines. -/
theorem imports_scan_moduleText (blocks : List Block) :
    (scan (.ofList (moduleText blocks))).imports = importsFrom 1 blocks := by
  rw [scan, foldl_frame _ ModuleSyntax.imports fun _ _ => ModuleSyntax.imports_addExport _ _]
  simp only [String.toList_ofList]
  exact imports_moduleText blocks

/-- Names in brackets over several lines, and an indented plain import behind them. -/
def sample : List Block :=
  let space : Gap isBlank := ⟨[' '], by decide⟩
  let user : NameItem isSpace :=
    ⟨"User".toList, ⟨by decide, by decide, by decide, by decide⟩,
      some ⟨⟨[' '], by decide⟩, ⟨[' '], by decide⟩, "U".toList,
        ⟨by decide, by decide, by decide, by decide⟩⟩⟩
  let group : NameItem isSpace :=
    ⟨"Group".toList, ⟨by decide, by decide, by decide, by decide⟩, none⟩
  let path : ModuleItem :=
    ⟨⟨"os".toList, [⟨"path".toList, by decide, by decide⟩], ⟨by decide, by decide⟩, by decide⟩,
      none⟩
  [.statement ⟨[], rfl⟩
      (.selected space (.relative 0 [⟨"models".toList, by decide, by decide⟩]) space space
        (.bracketed ⟨"\n  ".toList, by decide⟩
          ⟨user, [(⟨[], rfl⟩, ⟨"\n  ".toList, by decide⟩, group)]⟩ ⟨[], rfl⟩
          (some ⟨['\n'], by decide⟩)))
      ⟨[], rfl⟩,
    .statement ⟨[' ', ' '], by decide⟩ (.plain space ⟨path, []⟩) ⟨[], rfl⟩]

theorem imports_scan_sample :
    (scan "from .models import (\n  User as U,\n  Group,\n)\n  import os.path").imports =
      [⟨".models", [.named "User" "U", .named "Group" "Group"], .static, 1⟩,
        ⟨"os.path", [.namespaceAs "os"], .static, 5⟩] := by
  have htext : .ofList (moduleText sample) =
      "from .models import (\n  User as U,\n  Group,\n)\n  import os.path" := by decide
  have himports : importsFrom 1 sample =
      [⟨".models", [.named "User" "U", .named "Group" "Group"], .static, 1⟩,
        ⟨"os.path", [.namespaceAs "os"], .static, 5⟩] := by decide
  rw [← htext, imports_scan_moduleText, himports]

/-- A module whose name starts with a letter outside ASCII is not found. -/
theorem imports_scan_accented : (scan "import été").imports = [] := by decide +kernel

end Python

end DeadCode
