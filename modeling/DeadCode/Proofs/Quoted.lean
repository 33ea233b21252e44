import DeadCode.Language.Basic
import DeadCode.Proofs.ComponentLines
import DeadCode.Proofs.Fold
import DeadCode.Proofs.StringMap
import DeadCode.Proofs.Text

/-!
# DeadCode.Proofs.Quoted

How the imports of a file are written. Each import that a scan finds is named by a literal
(`WrittenImport`), and the literal stands in the text of the file. For a script this is a matter of
types, because its facts can only be made from literals that stand in it. For a component it remains
to see that a script block is a part of its text.

A literal splits into the quotes before what it says, what it says and the quotes behind that. There
is always a quote before; the quotes next to what it says need not be alike, and there need not be
one behind (`IsClosedAlike`).
-/

namespace DeadCode

/-! ### Literals -/

namespace Script

/-- The quotes at the start of a literal. -/
def openingQuotes (literal : List Char) : List Char := literal.takeWhile isQuote

/-- The quotes at the end of a literal. -/
def closingQuotes (literal : List Char) : List Char :=
  ((literal.dropWhile isQuote).reverse.takeWhile isQuote).reverse

/-- What a literal says stands in it between two like quotes. -/
def IsClosedAlike (literal : List Char) : Prop :=
  (openingQuotes literal).getLast? = (closingQuotes literal).head?

instance (literal : List Char) : Decidable (IsClosedAlike literal) :=
  inferInstanceAs (Decidable (_ = _))

variable {literal : List Char}

/-- A literal is its quotes around what is quoted. -/
theorem openingQuotes_append (literal : List Char) :
    openingQuotes literal ++ (unquote literal ++ closingQuotes literal) = literal := by
  rw [unquote, Text.trimWhile, closingQuotes, Text.dropEndWhile_append_takeWhile]
  exact List.takeWhile_append_dropWhile

theorem isQuote_of_mem_openingQuotes {c : Char} (h : c ∈ openingQuotes literal) :
    isQuote c = true :=
  List.all_eq_true.1 List.all_takeWhile c h

theorem isQuote_of_mem_closingQuotes {c : Char} (h : c ∈ closingQuotes literal) :
    isQuote c = true :=
  List.all_eq_true.1 List.all_takeWhile c (List.mem_reverse.1 h)

/-- A literal that opens with a quote has one right before what it says. -/
theorem exists_openingQuotes (hopens : literal.head?.any isQuote = true) :
    ∃ before q, isQuote q = true ∧ openingQuotes literal = before ++ [q] := by
  have hne : openingQuotes literal ≠ [] := by
    cases literal with
    | nil => cases hopens
    | cons c cs =>
      have hc : isQuote c = true := hopens
      rw [openingQuotes, List.takeWhile_cons_of_pos hc]
      exact List.cons_ne_nil _ _
  obtain ⟨before, q, hquotes⟩ := (List.eq_nil_or_concat (openingQuotes literal)).resolve_left hne
  rw [List.concat_eq_append] at hquotes
  have hq : q ∈ openingQuotes literal := by simp [hquotes]
  exact ⟨before, q, isQuote_of_mem_openingQuotes hq, hquotes⟩

/-- What a literal says stands in it behind a quote, and before the same quote if it is closed
alike. -/
theorem exists_quote_infix (hopens : literal.head?.any isQuote = true) :
    ∃ q, isQuote q = true ∧ q :: unquote literal <:+: literal ∧
      (IsClosedAlike literal → q :: unquote literal ++ [q] <:+: literal) := by
  obtain ⟨before, q, hq, hquotes⟩ := exists_openingQuotes hopens
  have hliteral : before ++ (q :: unquote literal) ++ closingQuotes literal = literal := by
    conv_rhs => rw [← openingQuotes_append literal, hquotes]
    simp
  refine ⟨q, hq, ⟨before, closingQuotes literal, hliteral⟩, fun halike => ?_⟩
  rw [IsClosedAlike, hquotes, List.getLast?_concat] at halike
  obtain ⟨after, hafter⟩ := List.head?_eq_some_iff.1 halike.symm
  refine ⟨before, after, ?_⟩
  rw [hafter] at hliteral
  simpa using hliteral

/-- What a literal says stands nowhere else in it than between its quotes. -/
theorem eq_quotes_of_infix {q c : Char} (hne : unquote literal ≠ [])
    (h : q :: unquote literal ++ [c] <:+: literal) :
    (openingQuotes literal).getLast? = some q ∧ (closingQuotes literal).head? = some c := by
  obtain ⟨before, after, hliteral⟩ := h
  have hparts : before ++ [q] ++ (unquote literal ++ c :: after) =
      openingQuotes literal ++ (unquote literal ++ closingQuotes literal) := by
    rw [openingQuotes_append]
    simpa using hliteral
  obtain ⟨hopening, hclosing⟩ := Text.eq_of_append_of_stops hne (Text.stops_trimWhile _ _)
    (Text.stops_reverse_trimWhile _ _) (fun _ => isQuote_of_mem_openingQuotes)
    (fun _ => isQuote_of_mem_closingQuotes) hparts
  rw [← hopening, ← hclosing]
  exact ⟨List.getLast?_concat, rfl⟩

end Script

/-! ### Written imports -/

/-- An import with the literal that names its module. -/
structure WrittenImport where
  literal : List Char
  entry : Import
  deriving DecidableEq

namespace WrittenImport

/-- The import `offset` lines further down. -/
def shift (offset : Nat) (w : WrittenImport) : WrittenImport :=
  { w with entry := w.entry.shift offset }

/-- The literal is a part of a text, and says which module is imported. -/
structure StandsIn (w : WrittenImport) (text : List Char) : Prop where
  opens : w.literal.head?.any Script.isQuote = true
  stands : w.literal <:+: text
  ne_nil : Script.unquote w.literal ≠ []
  source : w.entry.source.toList = Script.unquote w.literal

/-- A literal that stands in a script stands in the text around the script. -/
theorem StandsIn.mono {w : WrittenImport} {text text' : List Char} (h : w.StandsIn text)
    (htext : text <:+: text') : w.StandsIn text' :=
  { h with stands := h.stands.trans htext }

end WrittenImport

namespace ModuleSyntax

theorem imports_addExport (m : ModuleSyntax) (e : ExportedSymbol) :
    (m.addExport e).imports = m.imports := by
  unfold addExport
  split <;> rfl

theorem imports_extend (m other : ModuleSyntax) (offset : Nat) :
    (m.extend other offset).imports = m.imports ++ other.imports.map (Import.shift offset) := by
  rw [extend, foldl_frame _ ModuleSyntax.imports fun _ _ => imports_addExport _ _]

end ModuleSyntax

namespace Script

variable {script : List Char}

/-! ### Scripts -/

/-- The import that a fact adds to a module, with its literal. -/
def Fact.written? : Fact script → Option WrittenImport
  | .imports left source specifiers kind =>
    some ⟨source.literal, .ofList source.chars, specifiers, kind, lineOf script left⟩
  | .exports _ _ => none

/-- The imports of a script as they are written. -/
def writtenImports (dialect : Dialect) (script : List Char) : List WrittenImport :=
  (factsOfTrees (program dialect script)).filterMap Fact.written?

/-- The facts of a script import what is written in it, in order. -/
theorem imports_foldl_addFact (facts : List (Fact script)) (m : ModuleSyntax) :
    (facts.foldl addFact m).imports =
      m.imports ++ (facts.filterMap Fact.written?).map (·.entry) := by
  induction facts generalizing m with
  | nil => simp
  | cons fact facts ih =>
    rw [List.foldl_cons, ih]
    cases fact with
    | imports left source specifiers kind =>
      simp [addFact, ModuleSyntax.addImport, Fact.written?]
    | exports left name =>
      rw [addFact, ModuleSyntax.imports_addExport, List.filterMap_cons_none rfl]

theorem imports_scanChars (dialect : Dialect) (script : List Char) :
    (scanChars dialect script).imports = (writtenImports dialect script).map (·.entry) :=
  imports_foldl_addFact _ _

theorem standsIn_of_mem_writtenImports {dialect : Dialect} {w : WrittenImport}
    (h : w ∈ writtenImports dialect script) : w.StandsIn script := by
  obtain ⟨fact, -, hfact⟩ := List.mem_filterMap.1 h
  cases fact with
  | imports left source specifiers kind =>
    obtain rfl := Option.some.inj hfact
    exact ⟨source.opens, source.stands, source.ne_nil, String.toList_ofList⟩
  | exports left name => cases hfact

/-! ### Components -/

/-- The imports of a component as they are written in its script blocks. -/
def writtenInComponent (text : String) : List WrittenImport :=
  (scriptBlocksFrom 0 0 text.toList).flatMap fun entry =>
    (writtenImports entry.2.dialect entry.2.body).map (WrittenImport.shift entry.1)

/-- Each block adds what is written in it, by as many lines further down as stand before it. -/
theorem imports_foldl_extend (blocks : List (Nat × ScriptBlock)) (m : ModuleSyntax) :
    (blocks.foldl (fun m entry =>
        m.extend (scanChars entry.2.dialect entry.2.body) entry.1) m).imports =
      m.imports ++ (blocks.flatMap fun entry =>
        (writtenImports entry.2.dialect entry.2.body).map (WrittenImport.shift entry.1)).map
          (·.entry) := by
  induction blocks generalizing m with
  | nil => simp
  | cons entry blocks ih =>
    rw [List.foldl_cons, ih, ModuleSyntax.imports_extend, imports_scanChars]
    simp [WrittenImport.shift]

/-- The imports of a component are those written in its scripts. -/
theorem imports_scanComponent (text : String) :
    (scanComponent text).imports = (writtenInComponent text).map (·.entry) :=
  imports_foldl_extend _ _

theorem standsIn_of_mem_writtenInComponent {text : String} {w : WrittenImport}
    (h : w ∈ writtenInComponent text) : w.StandsIn text.toList := by
  obtain ⟨entry, hentry, hw⟩ := List.mem_flatMap.1 h
  obtain ⟨inBlock, hblock, rfl⟩ := List.mem_map.1 hw
  obtain ⟨before, behind, htext, -⟩ := exists_append_of_mem_scriptBlocksFrom hentry
  have hpart : entry.2.body <:+: text.toList := ⟨before, behind, by rw [htext, List.append_assoc]⟩
  -- the lines before the block change neither the literal nor the module
  have hstands := (standsIn_of_mem_writtenImports hblock).mono hpart
  exact ⟨hstands.opens, hstands.stands, hstands.ne_nil, hstands.source⟩

end Script

/-! ### Files of a project -/

theorem Path.hasExtension_eq_false {extensions others : List String} {path : String}
    (hdisjoint : ∀ e ∈ extensions, e ∉ others) (h : hasExtension extensions path = true) :
    hasExtension others path = false := by
  unfold hasExtension at h ⊢
  cases hext : extension? path with
  | none => rfl
  | some e =>
    rw [hext, Option.any_some, List.contains_iff_mem] at h
    rw [Option.any_some, Bool.eq_false_iff]
    exact fun hother => hdisjoint e h (List.contains_iff_mem.1 hother)

/-- The extensions of a language are its own. -/
theorem Language.hasExtension_eq_false {others : List String} {path : String}
    (hdisjoint : ∀ e ∈ Path.scriptExtensions ++ ["vue", "svelte"], e ∉ others)
    (h : Language.owns .javaScript path = true) : Path.hasExtension others path = false := by
  rcases Bool.or_eq_true_iff.1 h with hscript | hcomponent
  · exact Path.hasExtension_eq_false
      (fun e he => hdisjoint e (List.mem_append_left _ he)) hscript
  · exact Path.hasExtension_eq_false
      (fun e he => hdisjoint e (List.mem_append_right _ he)) hcomponent

namespace Project

/-- The imports in the text of a script or a component as they are written. -/
def writtenImports (path text : String) : List WrittenImport :=
  if Path.isComponent path then Script.writtenInComponent text
  else ((Path.extension? path).bind Script.Dialect.ofExtension?).toList.flatMap
    (Script.writtenImports · text.toList)

/-- The imports of a module are those written in its text. -/
theorem imports_of_scanText? {path text : String} {m : ModuleSyntax}
    (howns : Language.owns .javaScript path = true) (h : scanText? path text = some m) :
    m.imports = (writtenImports path text).map (·.entry) := by
  have hpython : Path.isPython path = false := Language.hasExtension_eq_false (by decide) howns
  rw [scanText?, hpython, if_neg Bool.false_ne_true] at h
  rw [writtenImports]
  split at h
  · next hcomponent =>
    rw [if_pos hcomponent, ← Option.some.inj h, Script.imports_scanComponent]
  · next hscript =>
    obtain ⟨dialect, hdialect, rfl⟩ := Option.map_eq_some_iff.1 h
    rw [if_neg hscript, hdialect, Script.scan, Script.imports_scanChars]
    simp

theorem standsIn_of_mem_writtenImports {path text : String} {w : WrittenImport}
    (h : w ∈ writtenImports path text) : w.StandsIn text.toList := by
  rw [writtenImports] at h
  split at h
  · exact Script.standsIn_of_mem_writtenInComponent h
  · obtain ⟨dialect, -, hw⟩ := List.mem_flatMap.1 h
    exact Script.standsIn_of_mem_writtenImports hw

theorem module?_ofNodes (config : Config) (nodes : Nodes) (path : String) :
    (ofNodes config nodes).module? path = (nodes.find? path).bind (moduleOf? config path) :=
  StringMap.find?_filterMap nodes (moduleOf? config) path

/-- A file without hints has the imports of its text. -/
theorem exists_text_of_moduleOf? {config : Config} {path : String} {node : SourceNode}
    {m : ModuleSyntax} (howns : Language.owns .javaScript path = true)
    (hhints : node.hasHints = false) (h : moduleOf? config path node = some m) :
    ∃ text, node.text? = some text ∧ m.imports = (writtenImports path text).map (·.entry) := by
  rw [moduleOf?, hhints, if_neg Bool.false_ne_true] at h
  obtain ⟨text, htext, hscan⟩ := Option.bind_eq_some_iff.1 h
  obtain ⟨htext, -⟩ := Option.filter_eq_some_iff.1 htext
  rw [textToScan?] at htext
  split at htext
  · cases htext
  · exact ⟨text, htext, imports_of_scanText? howns hscan⟩

end Project

end DeadCode
