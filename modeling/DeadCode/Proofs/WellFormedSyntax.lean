import DeadCode.Proofs.DistinctFindings
import DeadCode.Proofs.PythonLines

/-!
# DeadCode.Proofs.WellFormedSyntax

What every scan promises to the analyses behind it. Each import names a module, binds or loads
something, and stands on a line of the text; each export stands on a line of the text too, under a
name of its own; and what a file passes on from another module, it exports.

For a script this is read off its facts: a statement that passes names on leaves an export for each
of them next to its import (`AreBacked`), and running the facts together loses none. In a component
the lines of a script block are counted from the top of its body, and the lines before the body are
added.
-/

namespace DeadCode

open Text

/-! ### Well-formed modules -/

/-- The line is one of the first `last` lines. -/
def IsLineUpTo (last line : Nat) : Prop := 1 ≤ line ∧ line ≤ last

/-- An import that names a module and says what is taken from it, in a text of `last` lines. -/
structure Import.IsWellFormed (last : Nat) (i : Import) : Prop where
  source_ne : i.source ≠ ""
  specifiers_ne : i.specifiers ≠ []
  line : IsLineUpTo last i.line

/-- The names under which an import passes names of another module on. -/
def Import.passedOn (i : Import) : List String :=
  if i.kind = .reExport then (i.specifiers.filterMap Specifier.localName?).filter (· ≠ "*") else []

/-- Every export stands on one of the first `last` lines. -/
def ModuleSyntax.HasLinesUpTo (last : Nat) (m : ModuleSyntax) : Prop :=
  ∀ e ∈ m.exports, IsLineUpTo last e.line

/-- What a scan of a text with `last` lines may say. -/
structure ModuleSyntax.IsWellFormed (last : Nat) (m : ModuleSyntax) : Prop where
  imports : ∀ i ∈ m.imports, i.IsWellFormed last
  distinct : m.HasDistinctExports
  lines : m.HasLinesUpTo last
  passedOn : ∀ i ∈ m.imports, i.passedOn ⊆ m.exportNames

/-- The number of lines of a text. -/
def Text.lineCount (cs : List Char) : Nat := newlines cs + 1

/-- Behind every beginning of a text, one of its lines goes on. -/
theorem isLineUpTo_of_prefix {as cs : List Char} (h : as <+: cs) :
    IsLineUpTo (lineCount cs) (newlines as + 1) := by
  obtain ⟨bs, rfl⟩ := h
  rw [lineCount, newlines_append]
  exact ⟨by omega, by omega⟩

theorem IsLineUpTo.add {last line : Nat} (h : IsLineUpTo last line) {offset last' : Nat}
    (hlast : last + offset ≤ last') : IsLineUpTo last' (line + offset) := by
  obtain ⟨hpos, hle⟩ := h
  exact ⟨by omega, by omega⟩

theorem Import.IsWellFormed.shift {last offset last' : Nat} {i : Import} (h : i.IsWellFormed last)
    (hlast : last + offset ≤ last') : (i.shift offset).IsWellFormed last' where
  source_ne := h.source_ne
  specifiers_ne := h.specifiers_ne
  line := h.line.add hlast

namespace ModuleSyntax

variable {m other : ModuleSyntax} {name : String}

/-! ### What is exported -/

/-- Adding an export adds its name and no other. -/
theorem mem_exportNames_addExport {e : ExportedSymbol} :
    name ∈ (m.addExport e).exportNames ↔ name ∈ m.exportNames ∨ name = e.name := by
  unfold addExport
  split
  · next hany =>
    obtain ⟨known, hknown, hname⟩ := List.any_eq_true.1 hany
    refine ⟨Or.inl, fun h => h.elim id fun h => ?_⟩
    rw [h, ← eq_of_beq hname]
    exact List.mem_map_of_mem hknown
  · simp [exportNames]

theorem hasLinesUpTo_nil (last : Nat) (is : List Import) : HasLinesUpTo last ⟨is, []⟩ := by
  intro e he
  cases he

theorem HasLinesUpTo.addExport {last : Nat} (hm : m.HasLinesUpTo last) {e : ExportedSymbol}
    (he : IsLineUpTo last e.line) : (m.addExport e).HasLinesUpTo last := by
  intro e' he'
  unfold ModuleSyntax.addExport at he'
  split at he'
  · exact hm e' he'
  · rcases List.mem_append.1 he' with he' | he'
    · exact hm e' he'
    · obtain rfl := List.mem_singleton.1 he'
      exact he

theorem mem_exportNames_extend {offset : Nat} :
    name ∈ (m.extend other offset).exportNames ↔
      name ∈ m.exportNames ∨ name ∈ other.exportNames := by
  rw [extend, foldl_iff (fun (m : ModuleSyntax) (e : ExportedSymbol) =>
    m.addExport { e with line := e.line + offset }) (P := fun m => name ∈ m.exportNames)
    (Q := fun e => name = e.name) fun _ _ => mem_exportNames_addExport]
  simp [exportNames, eq_comm]

theorem isWellFormed_empty (last : Nat) : empty.IsWellFormed last where
  imports := by simp [empty]
  distinct := hasDistinctExports_empty
  lines := hasLinesUpTo_nil last []
  passedOn := by simp [empty]

/-- A module stays well-formed when another one follows, if the text goes on to its last line. -/
theorem IsWellFormed.extend {last last' offset : Nat} (hm : m.IsWellFormed last')
    (hother : other.IsWellFormed last) (hlast : last + offset ≤ last') :
    (m.extend other offset).IsWellFormed last' where
  imports i hi := by
    rw [imports_extend, List.mem_append, List.mem_map] at hi
    rcases hi with hi | ⟨j, hj, rfl⟩
    · exact hm.imports i hi
    · exact (hother.imports j hj).shift hlast
  distinct := hm.distinct.extend other offset
  lines := by
    refine List.foldlRecOn (motive := HasLinesUpTo last') _ _ hm.lines fun m hm e he => ?_
    exact hm.addExport ((hother.lines e he).add hlast)
  passedOn i hi := by
    intro name hname
    rw [mem_exportNames_extend]
    rw [imports_extend, List.mem_append, List.mem_map] at hi
    rcases hi with hi | ⟨j, hj, rfl⟩
    · exact Or.inl (hm.passedOn i hi hname)
    · exact Or.inr (hother.passedOn j hj hname)

end ModuleSyntax

/-! ### Scripts -/

namespace Script

variable {script : List Char} {as bs : List (Fact script)}

/-- The import that a fact adds to a module. -/
def Fact.import? (fact : Fact script) : Option Import := fact.written?.map (·.entry)

/-- The import of a fact, if there is one, says what is taken from the module, and what it passes on
is exported by the facts. -/
def Fact.IsBackedBy (facts : List (Fact script)) (fact : Fact script) : Prop :=
  ∀ i ∈ fact.import?, i.specifiers ≠ [] ∧ ∀ name ∈ i.passedOn, ∃ left, .exports left name ∈ facts

/-- Whatever the facts pass on from another module, they export. -/
def AreBacked (facts : List (Fact script)) : Prop := ∀ fact ∈ facts, fact.IsBackedBy facts

theorem Fact.IsBackedBy.mono {fact : Fact script} (h : fact.IsBackedBy as) (hsub : as ⊆ bs) :
    fact.IsBackedBy bs := by
  intro i hi
  obtain ⟨hne, hpassed⟩ := h i hi
  refine ⟨hne, fun name hname => ?_⟩
  obtain ⟨left, hexport⟩ := hpassed name hname
  exact ⟨left, hsub hexport⟩

theorem isBackedBy_exports (left : Nat) (name : String) :
    (Fact.exports left name : Fact script).IsBackedBy as := by
  intro i hi
  cases hi

theorem areBacked_nil : AreBacked ([] : List (Fact script)) := by
  intro fact hfact
  cases hfact

theorem AreBacked.append (has : AreBacked as) (hbs : AreBacked bs) : AreBacked (as ++ bs) := by
  intro fact hfact
  rcases List.mem_append.1 hfact with hfact | hfact
  · exact (has fact hfact).mono (List.subset_append_left as bs)
  · exact (hbs fact hfact).mono (List.subset_append_right as bs)

/-! ### Facts of a single statement -/

/-- An import that passes nothing on needs nothing but its specifiers. -/
theorem areBacked_singleton {left : Nat} {source : Quoted script} {specifiers : List Specifier}
    {kind : ImportKind} (hne : specifiers ≠ []) (hkind : kind ≠ .reExport) :
    AreBacked [.imports left source specifiers kind] := by
  intro fact hfact i hi
  obtain rfl := List.mem_singleton.1 hfact
  obtain rfl := Option.some.inj hi
  refine ⟨hne, fun name hname => ?_⟩
  rw [Import.passedOn, if_neg hkind] at hname
  cases hname

theorem Tree.holder_ne_nil (tree : Tree script) : tree.holder ≠ [] := by
  cases tree <;> simp [Tree.holder]

theorem Tree.loads?_ne_reExport (tree : Tree script) : tree.loads? ≠ some .reExport := by
  unfold Tree.loads?
  split <;> simp

theorem areBacked_callFacts (left : Nat) (callee : Tree script) (arguments : List (Tree script))
    {held : List Specifier} (hheld : held ≠ []) :
    AreBacked (callFacts left callee arguments held) := by
  unfold callFacts
  split
  · next kind source hkind _ =>
    refine areBacked_singleton ?_ fun h => callee.loads?_ne_reExport (h ▸ hkind)
    split
    · exact hheld
    · simp
  · exact areBacked_nil

theorem areBacked_importFacts (left : Nat) (clause : ImportClause script) :
    AreBacked (importFacts left clause) := by
  unfold importFacts moduleFacts
  cases clause.source with
  | none => exact areBacked_nil
  | some source =>
    refine areBacked_singleton ?_ ?_
    · split <;> simp_all
    · split <;> simp

/-- A statement that passes names on is backed by the exports of these names. -/
theorem areBacked_reExportFacts (left : Nat) (source : Option (Quoted script)) (names : List String)
    {specifiers : List Specifier}
    (h : ∀ name ∈ specifiers.filterMap Specifier.localName?, name ≠ "*" → name ∈ names) :
    AreBacked (names.map (.exports left) ++ reExportFacts left source specifiers) := by
  intro fact hfact
  rcases List.mem_append.1 hfact with hfact | hfact
  · obtain ⟨name, -, rfl⟩ := List.mem_map.1 hfact
    exact isBackedBy_exports left name
  · obtain ⟨source, -, rfl⟩ := List.mem_map.1 hfact
    intro i hi
    obtain rfl := Option.some.inj hi
    refine ⟨by split <;> simp_all, fun name hname => ⟨left, ?_⟩⟩
    rw [Import.passedOn, if_pos rfl, List.mem_filter] at hname
    obtain ⟨hname, hstar⟩ := hname
    refine List.mem_append_left _ (List.mem_map_of_mem (h name ?_ (of_decide_eq_true hstar)))
    dsimp only at hname
    split at hname
    · cases hname
    · exact hname

/-- A re-export comes with the name that it exports. -/
theorem areBacked_exportFacts (left : Nat) (parts : List (Tree script))
    (clause : ExportClause script) : AreBacked (exportFacts left parts clause) := by
  fun_cases exportFacts left parts clause with
  | case1 =>
    intro fact hfact
    obtain rfl := List.mem_singleton.1 hfact
    exact isBackedBy_exports left "default"
  | case2 =>
    intro fact hfact
    obtain ⟨name, -, rfl⟩ := List.mem_map.1 hfact
    exact isBackedBy_exports left name
  | case3 names source =>
    have hnames : (names.map fun x => Specifier.named x.1 x.2).filterMap Specifier.localName? =
        names.map (·.2) := by
      rw [List.filterMap_map]
      exact congrFun List.filterMap_eq_map names
    have h := areBacked_reExportFacts left source (names.map (·.2)) fun name hname _ =>
      hnames ▸ hname
    rwa [List.map_map] at h
  | case4 name source hsource => exact areBacked_nil
  | case5 name source hsource =>
    exact areBacked_reExportFacts left source [name] (by simp [Specifier.localName?])
  | case6 source => exact areBacked_reExportFacts left source [] (by simp [Specifier.localName?])
  | case7 => exact areBacked_nil

/-! ### Facts of a script -/

/-- By mutual induction on trees and lists of trees, one case per constructor. -/
theorem areBacked_facts :
    (∀ tree : Tree script, AreBacked tree.facts) ∧
      ∀ trees : List (Tree script), AreBacked (factsOfTrees trees) := by
  -- what is exported stays exported when more facts are added, so each case appends what its parts
  -- give
  refine Tree.facts.mutual_induct _ _ ?call ?loaded ?declarator ?importing ?exporting ?template
    ?binds ?pattern ?bindings ?declared ?ambient ?group ?other ?nil ?cons
  case call =>
    intro left callee types arguments hcallee htypes harguments
    have hcall := areBacked_callFacts left callee arguments (List.cons_ne_nil .sideEffect [])
    rw [Tree.facts]
    exact ((hcall.append hcallee).append htypes).append harguments
  case loaded =>
    intro target type left callee types arguments htarget htype hcallee htypes harguments
    have hcall := areBacked_callFacts left callee arguments target.holder_ne_nil
    rw [Tree.facts]
    exact ((((htarget.append htype).append hcall).append hcallee).append htypes).append harguments
  case declarator =>
    intro target type value hvalue htarget htype hparts
    rw [Tree.facts]
    · exact (htarget.append htype).append hparts
    · exact hvalue
  case importing =>
    intro left clause
    exact areBacked_importFacts left clause
  case exporting =>
    intro left clause parts hparts
    rw [Tree.facts]
    exact (areBacked_exportFacts left parts clause).append hparts
  case binds =>
    intro before target after hbefore htarget hafter
    rw [Tree.facts]
    exact (hbefore.append htarget).append hafter
  case declared =>
    intro name parts hparts
    rwa [Tree.facts]
  case template | pattern | bindings | ambient | group =>
    intro parts hparts
    rwa [Tree.facts]
  -- no other tree says anything by itself
  case other =>
    intro tree
    intros
    rw [Tree.facts]
    · exact areBacked_nil
    all_goals assumption
  case nil => exact areBacked_nil
  case cons =>
    intro tree trees htree htrees
    rw [factsOfTrees]
    exact htree.append htrees

/-! ### Running facts together -/

theorem isLineUpTo_lineOf (script : List Char) (left : Nat) :
    IsLineUpTo (lineCount script) (lineOf script left) :=
  isLineUpTo_of_prefix (List.take_prefix _ _)

theorem Fact.isWellFormed_import? {facts : List (Fact script)} {fact : Fact script} {i : Import}
    (hfact : fact.IsBackedBy facts) (hi : i ∈ fact.import?) :
    i.IsWellFormed (lineCount script) := by
  have hne := (hfact i hi).1
  cases fact with
  | imports left source specifiers kind =>
    obtain rfl := Option.some.inj hi
    refine ⟨fun hsource => source.ne_nil ?_, hne, isLineUpTo_lineOf script left⟩
    exact String.ofList_eq_empty_iff.1 hsource
  | exports left name => cases hi

/-- A run of facts exports what is exported before it and what its facts export. -/
theorem mem_exportNames_foldl {name : String} (facts : List (Fact script)) (m : ModuleSyntax) :
    name ∈ (facts.foldl addFact m).exportNames ↔
      name ∈ m.exportNames ∨ ∃ fact ∈ facts, ∃ left, fact = .exports left name := by
  refine foldl_iff addFact (P := fun m => name ∈ m.exportNames) (fun m fact => ?_) facts m
  cases fact with
  | imports left source specifiers kind =>
    simp [addFact, ModuleSyntax.addImport, ModuleSyntax.exportNames]
  | exports left other =>
    rw [addFact, ModuleSyntax.mem_exportNames_addExport]
    simp [eq_comm]

/-- The imports of a script are those of its facts. -/
theorem mem_imports_scanChars {dialect : Dialect} {i : Import} :
    i ∈ (scanChars dialect script).imports ↔
      ∃ fact ∈ factsOfTrees (program dialect script), i ∈ fact.import? := by
  rw [imports_scanChars, writtenImports, List.map_filterMap]
  exact List.mem_filterMap

/-- What is found in a script is well-formed, whatever the script. -/
theorem isWellFormed_scanChars (dialect : Dialect) (script : List Char) :
    (scanChars dialect script).IsWellFormed (lineCount script) where
  imports i hi := by
    obtain ⟨fact, hfact, hi⟩ := mem_imports_scanChars.1 hi
    exact Fact.isWellFormed_import? (areBacked_facts.2 _ fact hfact) hi
  distinct := hasDistinctExports_scanChars dialect script
  lines := by
    refine List.foldlRecOn (motive := ModuleSyntax.HasLinesUpTo (lineCount script)) _ _
      (ModuleSyntax.hasLinesUpTo_nil _ []) fun m hm fact _ => ?_
    cases fact with
    | imports left source specifiers kind => exact hm
    | exports left name => exact hm.addExport (isLineUpTo_lineOf script left)
  passedOn i hi := by
    intro name hname
    obtain ⟨fact, hfact, hi⟩ := mem_imports_scanChars.1 hi
    obtain ⟨left, hexport⟩ := (areBacked_facts.2 _ fact hfact i hi).2 name hname
    exact (mem_exportNames_foldl _ _).2 (Or.inr ⟨_, hexport, left, rfl⟩)

/-! ### Components -/

/-- The lines before the body of a block and those of the body lie in the component. -/
theorem lines_le_of_mem_scriptBlocksFrom {skip lines : Nat} {cs : List Char}
    {entry : Nat × ScriptBlock} (h : entry ∈ scriptBlocksFrom skip lines cs) :
    entry.1 + newlines entry.2.body ≤ lines + newlines cs := by
  obtain ⟨before, behind, rfl, hlines⟩ := exists_append_of_mem_scriptBlocksFrom h
  simp only [newlines_append]
  omega

theorem isWellFormed_scanComponent (text : String) :
    (scanComponent text).IsWellFormed (lineCount text.toList) := by
  refine List.foldlRecOn (motive := ModuleSyntax.IsWellFormed _) _ _
    (ModuleSyntax.isWellFormed_empty _) fun m hm entry hentry => ?_
  have hlines := lines_le_of_mem_scriptBlocksFrom hentry
  refine hm.extend (isWellFormed_scanChars entry.2.dialect entry.2.body) ?_
  rw [lineCount, lineCount]
  omega

end Script

/-! ### Finds of a search -/

namespace Text

variable {α : Type} {recognise : Recogniser α} {found : Found α} {cs : List Char}

/-- The find is recognised somewhere in a text that starts at `offset`, at the offset of its
place. -/
def IsFoundIn (recognise : Recogniser α) (offset : Nat) (cs : List Char) (found : Found α) : Prop :=
  ∃ as bs before rest, cs = as ++ bs ∧ found.offset = offset + byteLength as ∧
    recognise before bs = some (found.value, rest)

theorem IsFoundIn.cons {offset : Nat} {c : Char}
    (h : IsFoundIn recognise (offset + c.utf8Size) cs found) :
    IsFoundIn recognise offset (c :: cs) found := by
  obtain ⟨as, bs, before, rest, rfl, hoffset, hvalue⟩ := h
  exact ⟨c :: as, bs, before, rest, rfl, by rw [hoffset, byteLength, Nat.add_assoc], hvalue⟩

/-- What a search finds was recognised at its offset. -/
theorem isFoundIn_of_mem_findsFrom {skip offset : Nat} {before : Option Char}
    (h : found ∈ findsFrom recognise skip before offset cs) :
    IsFoundIn recognise offset cs found := by
  fun_induction findsFrom recognise skip before offset cs with
  | case1 => cases h
  | case2 before offset skip c cs ih => exact (ih h).cons
  | case3 before offset c cs value rest hvalue ih =>
    rcases List.mem_cons.1 h with rfl | h
    · exact ⟨[], c :: cs, before, rest, rfl, rfl, hvalue⟩
    · exact (ih h).cons
  | case4 before offset c cs hnone ih => exact (ih h).cons

theorem isLineUpTo_lineAt (h : found ∈ finds recognise cs) :
    IsLineUpTo (lineCount cs) ((LineIndex.ofText cs).lineAt found.offset) := by
  obtain ⟨as, bs, -, -, rfl, hoffset, -⟩ := isFoundIn_of_mem_findsFrom h
  rw [hoffset, Nat.zero_add, LineIndex.lineAt_ofText]
  exact isLineUpTo_of_prefix (List.prefix_append as bs)

theorem exists_recognised_of_mem_finds (h : found ∈ finds recognise cs) :
    ∃ before bs rest, recognise before bs = some (found.value, rest) := by
  obtain ⟨-, bs, before, rest, -, -, hvalue⟩ := isFoundIn_of_mem_findsFrom h
  exact ⟨before, bs, rest, hvalue⟩

theorem ne_nil_of_takeName {first next : Char → Bool} {name rest : List Char}
    (h : takeName first next cs = some (name, rest)) : name ≠ [] := by
  fun_cases takeName first next cs with
  | case1 c cs hc =>
    rw [takeName, if_pos hc] at h
    cases h
    simp
  | case2 c cs hc =>
    rw [takeName, if_neg hc] at h
    cases h
  | case3 => cases h

end Text

/-! ### Python modules -/

namespace Python

variable {cs rest : List Char}

theorem ne_nil_of_importItem {item : List Char × Option (List Char)}
    (h : importItem cs = some (item, rest)) : item.1 ≠ [] := by
  unfold importItem at h
  split at h
  · next name behind hname =>
    have hne := ne_nil_of_takeName hname
    split at h
    · cases h
      exact hne
    · cases h
      exact hne
  · cases h

theorem ne_nil_of_mem_importItems {fuel : Nat} {item : List Char × Option (List Char)}
    (h : item ∈ (importItems fuel cs).1) : item.1 ≠ [] := by
  fun_induction importItems fuel cs with
  | case1 => cases h
  | case2 fuel cs behind hcomma first behind' hfirst items behind'' hitems ih =>
    rcases List.mem_cons.1 h with rfl | h
    · exact ne_nil_of_importItem hfirst
    · rw [hitems] at ih
      exact ih h
  | case3 => cases h
  | case4 => cases h

theorem ne_nil_of_importStatement {before : Option Char}
    {items : List (List Char × Option (List Char))}
    (h : importStatement before cs = some (items, rest)) : ∀ item ∈ items, item.1 ≠ [] := by
  unfold importStatement at h
  split at h
  · obtain ⟨opened, -, h⟩ := Option.bind_eq_some_iff.1 h
    obtain ⟨behind, -, h⟩ := Option.bind_eq_some_iff.1 h
    obtain ⟨⟨first, others⟩, hfirst, h⟩ := Option.bind_eq_some_iff.1 h
    cases h
    intro item hitem
    rcases List.mem_cons.1 hitem with rfl | hitem
    · exact ne_nil_of_importItem hfirst
    · exact ne_nil_of_mem_importItems hitem
  · cases h

theorem ne_nil_of_fromModule {name : List Char} (h : fromModule cs = some (name, rest)) :
    name ≠ [] := by
  unfold fromModule at h
  split at h
  · next behind =>
    cases h
    rw [List.takeWhile_cons_of_pos rfl]
    exact List.cons_ne_nil _ _
  · exact ne_nil_of_takeName h

theorem ne_nil_of_fromStatement {before : Option Char} {statement : List Char × List Char}
    (h : fromStatement before cs = some (statement, rest)) : statement.1 ≠ [] := by
  unfold fromStatement at h
  split at h
  · obtain ⟨opened, -, h⟩ := Option.bind_eq_some_iff.1 h
    obtain ⟨gap, -, h⟩ := Option.bind_eq_some_iff.1 h
    obtain ⟨⟨name, behind⟩, hname, h⟩ := Option.bind_eq_some_iff.1 h
    obtain ⟨gap', -, h⟩ := Option.bind_eq_some_iff.1 h
    obtain ⟨word, -, h⟩ := Option.bind_eq_some_iff.1 h
    obtain ⟨⟨names, behind'⟩, -, h⟩ := Option.bind_eq_some_iff.1 h
    cases h
    exact ne_nil_of_fromModule hname
  · cases h

/-- Every import of a module is well-formed, and none passes anything on. -/
theorem isWellFormed_of_mem_imports {i : Import} (h : i ∈ imports (.ofText cs) cs) :
    i.IsWellFormed (lineCount cs) ∧ i.kind = .static := by
  rw [imports, List.mem_mergeSort, List.mem_append, List.mem_flatMap, List.mem_filterMap] at h
  rcases h with ⟨found, hfound, hi⟩ | ⟨found, hfound, hi⟩
  · obtain ⟨item, hitem, rfl⟩ := List.mem_map.1 hi
    obtain ⟨before, bs, rest, hvalue⟩ := exists_recognised_of_mem_finds hfound
    have hname := ne_nil_of_importStatement hvalue item hitem
    refine ⟨⟨fun hsource => hname ?_, List.cons_ne_nil _ _, isLineUpTo_lineAt hfound⟩, rfl⟩
    exact String.ofList_eq_empty_iff.1 hsource
  · obtain ⟨before, bs, rest, hvalue⟩ := exists_recognised_of_mem_finds hfound
    have hname := ne_nil_of_fromStatement hvalue
    unfold namesImport at hi
    split at hi
    · cases hi
    · next hne =>
      obtain rfl := Option.some.inj hi
      refine ⟨⟨fun hsource => hname ?_, hne, isLineUpTo_lineAt hfound⟩, rfl⟩
      exact String.ofList_eq_empty_iff.1 hsource

theorem isLineUpTo_of_mem_exports {e : ExportedSymbol} (h : e ∈ exports (.ofText cs) cs) :
    IsLineUpTo (lineCount cs) e.line := by
  unfold exports at h
  split at h
  · next found hfound =>
    obtain ⟨name, -, rfl⟩ := List.mem_map.1 h
    exact isLineUpTo_lineAt (List.mem_of_head? hfound)
  · rw [List.mem_mergeSort] at h
    obtain ⟨found, hfound, rfl⟩ := List.mem_map.1 (List.mem_of_mem_filter h)
    rcases List.mem_append.1 hfound with hfound | hfound
    · exact isLineUpTo_lineAt hfound
    · exact isLineUpTo_lineAt hfound

theorem isWellFormed_scan (text : String) :
    (scan text).IsWellFormed (lineCount text.toList) where
  imports i hi := by
    rw [imports_scan] at hi
    exact (isWellFormed_of_mem_imports hi).1
  distinct := hasDistinctExports_scan text
  lines := by
    refine List.foldlRecOn (motive := ModuleSyntax.HasLinesUpTo _) _ _
      (ModuleSyntax.hasLinesUpTo_nil _ _) fun m hm e he => ?_
    exact hm.addExport (isLineUpTo_of_mem_exports he)
  passedOn i hi := by
    rw [imports_scan] at hi
    rw [Import.passedOn, (isWellFormed_of_mem_imports hi).2]
    simp

end Python

/-- Whatever the text and the language, a scan is well-formed in the lines of the text. -/
theorem scanned_isWellFormed (text : String) :
    (Python.scan text).IsWellFormed (lineCount text.toList) ∧
      (∀ dialect, (Script.scan dialect text).IsWellFormed (lineCount text.toList)) ∧
      (Script.scanComponent text).IsWellFormed (lineCount text.toList) :=
  ⟨Python.isWellFormed_scan text, fun dialect => Script.isWellFormed_scanChars dialect text.toList,
    Script.isWellFormed_scanComponent text⟩

end DeadCode
