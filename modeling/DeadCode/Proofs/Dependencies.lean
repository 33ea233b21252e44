import DeadCode.Analysis.Run
import DeadCode.Proofs.Quoted

/-!
# DeadCode.Proofs.Dependencies

Packages that are imported are not reported as unused. The two sides go different ways: imports are
read off syntax trees, whereas a dependency counts as used when its name stands in some text between
two like quotes, or between a quote and a slash. They meet in the literals of the imports
(`WrittenImport.StandsIn`): a literal stands in the text, and so does what it mentions.

Two sorts of imports do not count. Those that a node brings along as hints need not stand in any
text, and a literal whose quotes next to the name differ does not mention the package.
-/

namespace DeadCode

/-- An import of a package itself or of a module in it. -/
def Import.IsOfPackage (i : Import) (name : String) : Prop :=
  i.source = name ∨ name.toList ++ ['/'] <+: i.source.toList

theorem Script.isQuote_iff {c : Char} : isQuote c = true ↔ c ∈ ['\'', '"', '`'] := by
  simp only [isQuote, Bool.or_eq_true, beq_iff_eq, List.mem_cons, List.not_mem_nil, or_false]
  exact or_assoc.trans or_left_comm

/-! ### Mentions of a package -/

namespace Manifests

/-- The forms that are searched for are the name between two like quotes, and between a quote and a
slash. -/
theorem mem_quotedForms_iff {name : String} {form : List Char} :
    form ∈ quotedForms name ↔ ∃ q c, Script.isQuote q = true ∧ (c = q ∨ c = '/') ∧
      form = q :: name.toList ++ [c] := by
  simp only [quotedForms, List.mem_flatMap, ← Script.isQuote_iff]
  simp only [List.mem_cons, List.not_mem_nil, or_false]
  constructor
  · intro h
    obtain ⟨q, hq, rfl | rfl⟩ := h
    · exact ⟨q, q, hq, .inl rfl, rfl⟩
    · exact ⟨q, '/', hq, .inr rfl, rfl⟩
  · intro h
    obtain ⟨q, c, hq, rfl | rfl, rfl⟩ := h
    · exact ⟨c, hq, .inl rfl⟩
    · exact ⟨q, hq, .inr rfl⟩

theorem mentions_of_mem {commandWords texts : List (List Char)} {name : String}
    {text form : List Char} (htext : text ∈ texts) (hform : form ∈ quotedForms name)
    (h : form <:+: text) : mentions commandWords texts name = true := by
  refine Bool.or_eq_true_iff.2 (.inr (List.any_eq_true.2 ⟨text, htext, ?_⟩))
  exact List.any_eq_true.2 ⟨form, hform, Text.occursIn_iff.2 h⟩

/-- The literal of an import mentions its package, unless it names the package itself with
different quotes next to the name. -/
theorem exists_quotedForm_iff {w : WrittenImport} {text : List Char} (hw : w.StandsIn text)
    {name : String} (hname : w.entry.IsOfPackage name) :
    (∃ form ∈ quotedForms name, form <:+: w.literal) ↔
      (w.entry.source = name → Script.IsClosedAlike w.literal) := by
  constructor
  · intro h heq
    obtain ⟨form, hform, hstands⟩ := h
    obtain ⟨q, c, hq, hc, rfl⟩ := mem_quotedForms_iff.1 hform
    rw [← heq, hw.source] at hstands
    obtain ⟨hopening, hclosing⟩ := Script.eq_quotes_of_infix hw.ne_nil hstands
    -- behind the name stands a quote, not a slash
    have hquote := Script.isQuote_of_mem_closingQuotes (List.mem_of_mem_head? hclosing)
    rcases hc with rfl | rfl
    · exact hopening.trans hclosing.symm
    · cases hquote
  · intro halike
    obtain ⟨q, hq, hopened, hclosed⟩ := Script.exists_quote_infix hw.opens
    rcases hname with heq | ⟨rest, hrest⟩
    · refine ⟨_, mem_quotedForms_iff.2 ⟨q, q, hq, .inl rfl, rfl⟩, ?_⟩
      rw [← heq, hw.source]
      exact hclosed (halike heq)
    · -- the import goes on behind the slash
      refine ⟨_, mem_quotedForms_iff.2 ⟨q, '/', hq, .inr rfl, rfl⟩, .trans ⟨[], rest, ?_⟩ hopened⟩
      rw [← hw.source, ← hrest]
      simp

/-- All contents are searched but those of manifests and lock files. -/
theorem mem_searchedTexts_iff {p : Project} {text : List Char} :
    text ∈ searchedTexts p ↔ ∃ path content, p.content? path = some content ∧
      Path.isManifest path = false ∧ Path.isLockFile path = false ∧ content.toList = text := by
  simp only [searchedTexts, Project.texts, List.mem_map, List.mem_filter, List.mem_filterMap,
    Prod.exists, Option.map_eq_some_iff, Bool.and_eq_true, Bool.not_eq_true', Project.content?,
    Option.bind_eq_some_iff, StringMap.mem_toList, Prod.mk.injEq]
  constructor
  · intro h
    obtain ⟨path, content, ⟨⟨_, node, hnode, _, hcontent, rfl, rfl⟩, hmanifest, hlock⟩, rfl⟩ := h
    exact ⟨_, _, ⟨node, hnode, hcontent⟩, hmanifest, hlock, rfl⟩
  · intro h
    obtain ⟨path, content, ⟨node, hnode, hcontent⟩, hmanifest, hlock, rfl⟩ := h
    exact ⟨path, content, ⟨⟨path, node, hnode, content, hcontent, rfl, rfl⟩, hmanifest, hlock⟩, rfl⟩

theorem mem_searchedTexts {p : Project} {path text : String} {node : SourceNode}
    (hnode : p.nodes.find? path = some node) (htext : node.text? = some text)
    (hmanifest : Path.isManifest path = false) (hlock : Path.isLockFile path = false) :
    text.toList ∈ searchedTexts p := by
  have hcontent : p.content? path = some text := by rw [Project.content?, hnode]; exact htext
  exact mem_searchedTexts_iff.2 ⟨path, text, hcontent, hmanifest, hlock, rfl⟩

/-- No text that is searched mentions a dependency that is reported. -/
theorem not_infix_of_mem_unused {m : Manifests} {p : Project} {d : DeclaredDependency}
    (hd : d ∈ m.unused p) {text form : List Char} (htext : text ∈ searchedTexts p)
    (hform : form ∈ quotedForms d.dependency.name) : ¬ form <:+: text := by
  intro h
  obtain ⟨-, hunused⟩ := List.mem_filter.1 hd
  have hmentioned : ∀ words, mentions words (searchedTexts p) d.dependency.name = true :=
    fun words => mentions_of_mem htext hform h
  have hused : ∀ typed words,
      isUsed typed (mentions words (searchedTexts p)) d.dependency = true := by
    intro typed words
    unfold isUsed
    split
    · -- a package of types may also count through the package that it describes
      rw [hmentioned, Bool.or_true]
    · exact hmentioned words
  rw [hused, Bool.not_true, Bool.and_false] at hunused
  cases hunused

end Manifests

/-! ### Texts that are searched -/

namespace Path

/-- The extensions of manifests and lock files. -/
def recordExtensions : List String := ["json", "lock", "yaml", "lockb"]

/-- Manifests and lock files are known by their extensions. -/
theorem hasExtension_of_fileName_mem {path : String}
    (h : fileName path ∈ "package.json" :: lockFiles) :
    hasExtension recordExtensions path = true := by
  -- only the file name matters, and it is one of a few
  unfold hasExtension extension?
  revert h
  generalize fileName path = name
  revert name
  decide

/-- No source is a manifest or a lock file. -/
theorem fileName_not_mem_of_owns {path : String} (h : Language.owns .javaScript path = true) :
    fileName path ∉ "package.json" :: lockFiles := by
  intro hmem
  have hnone : hasExtension recordExtensions path = false :=
    Language.hasExtension_eq_false (by decide) h
  rw [hasExtension_of_fileName_mem hmem] at hnone
  cases hnone

theorem isManifest_eq_false_of_owns {path : String} (h : Language.owns .javaScript path = true) :
    isManifest path = false := by
  rw [isManifest, Bool.and_eq_false_iff, beq_eq_false_iff_ne]
  exact .inl fun heq => fileName_not_mem_of_owns h (heq ▸ List.mem_cons_self ..)

theorem isLockFile_eq_false_of_owns {path : String} (h : Language.owns .javaScript path = true) :
    isLockFile path = false := by
  rw [isLockFile, Bool.eq_false_iff]
  exact fun hlock => fileName_not_mem_of_owns h
    (List.mem_cons_of_mem _ (List.contains_iff_mem.1 hlock))

end Path

/-- The analysis reports what the manifests find unused. -/
theorem mem_unusedDependencies_analyze {config : Config} {files : List SourceNode}
    {d : UnusedDependency} :
    d ∈ (analyze config files).unusedDependencies ↔
      ⟨d.dependency, d.manifest⟩ ∈
        (Manifests.ofProject (Project.ofFiles config files)).unused
          (Project.ofFiles config files) := by
  constructor
  · intro h
    obtain ⟨declared, hdeclared, rfl⟩ := List.mem_map.1 h
    exact hdeclared
  · intro h
    exact List.mem_map.2 ⟨_, h, rfl⟩

/-- A manifest with one dependency. -/
def lodashManifest : SourceNode :=
  .file "package.json" "\x7b\"dependencies\": \x7b\"lodash\": \"4\"\x7d\x7d"

/-- A component that imports a package. Its name stands a second time behind another quote, but not
in the literal of the import. -/
def importingComponent : SourceNode :=
  .file "src/App.vue"
    "<script setup>\nimport get, \x7b map \x7d from 'lodash'\nvar s = \"lodash's map\"\n</script>"

/-- A file imports the package that the manifest declares, and the package is reported. -/
def IsReportedThoughImported (importing : SourceNode) : Prop :=
  (∃ m, (Project.ofFiles .default [lodashManifest, importing]).module? "src/index.js" = some m ∧
    ∃ i ∈ m.imports, i.IsOfPackage "lodash") ∧
  ∃ d ∈ (analyze .default [lodashManifest, importing]).unusedDependencies,
    d.dependency.name = "lodash"

theorem isReportedThoughImported_of_mem {importing : SourceNode} {i : Import}
    (hm : (Project.ofFiles .default [lodashManifest, importing]).module? "src/index.js" =
      some ⟨[i], []⟩)
    (hname : i.source = "lodash")
    (hunused : ⟨⟨"lodash", "4", .production⟩, "package.json"⟩ ∈
      (Manifests.ofProject (Project.ofFiles .default [lodashManifest, importing])).unused
        (Project.ofFiles .default [lodashManifest, importing])) :
    IsReportedThoughImported importing := by
  refine ⟨⟨_, hm, i, List.mem_singleton.2 rfl, .inl hname⟩, ?_⟩
  exact ⟨⟨⟨"lodash", "4", .production⟩, "package.json"⟩,
    mem_unusedDependencies_analyze.2 hunused, rfl⟩

/-- A file that brings an import of the package along as a hint. -/
def hintedImport : SourceNode := (SourceNode.file "src/index.js" "").withHints ["lodash"] []

/-- A file that imports the package by a literal with another quote inside. -/
def mixedQuotesImport : SourceNode := .file "src/index.js" "import _ from '\"lodash'"

end DeadCode
