import DeadCode.Proofs.CleanPath
import DeadCode.Proofs.Search
import DeadCode.Report.Markdown
import Mathlib.Data.List.Count

/-!
# DeadCode.Proofs.MarkdownTable

Tables of a Markdown report. A bar divides the cells of a row unless a backslash stands before it,
so a row of three cells has four such bars (`bareBars`). The text of a report has one row for each
finding. Bars in the details of a finding are escaped, whatever they say; the location is written as
it is, so a row is well-formed exactly when neither the file nor the symbol brings a bar of its own
(`Report.rows_wellFormed_iff`).
-/

namespace DeadCode

open Text

/-! ### Bars -/

/-- The number of bars without a backslash before them, in a text behind `before`. -/
def bareBars (before : Option Char) : List Char → Nat
  | [] => 0
  | c :: cs => (if c = '|' ∧ before ≠ some '\\' then 1 else 0) + bareBars (some c) cs

/-- The number of bars in a line that divide cells. -/
def barCount (text : String) : Nat := bareBars none text.toList

section Bars

variable {before : Option Char} {cs : List Char}

/-- Bars are counted part by part, when the character before each part is known. -/
theorem bareBars_append (before : Option Char) (as bs : List Char) :
    bareBars before (as ++ bs) = bareBars before as + bareBars (lastOf before as) bs := by
  induction as generalizing before with
  | nil => simp [bareBars]
  | cons c as ih => rw [List.cons_append, bareBars, bareBars, ih, lastOf_cons, Nat.add_assoc]

theorem bareBars_cons_of_ne {c : Char} (hc : c ≠ '|') :
    bareBars before (c :: cs) = bareBars (some c) cs := by
  rw [bareBars, if_neg fun h => hc h.1, Nat.zero_add]

theorem bareBars_of_not_mem (h : '|' ∉ cs) : bareBars before cs = 0 := by
  induction cs generalizing before with
  | nil => rfl
  | cons c cs ih =>
    obtain ⟨hc, hcs⟩ := not_or.1 (mt List.mem_cons.2 h)
    rw [bareBars_cons_of_ne (Ne.symm hc), ih hcs]

/-- Only a backslash makes a difference to the text behind it. -/
theorem bareBars_eq_barCount (hbefore : before ≠ some '\\') (text : String) :
    bareBars before text.toList = barCount text := by
  rw [barCount]
  cases text.toList with
  | nil => rfl
  | cons c cs => simp only [bareBars, hbefore, ne_eq, reduceCtorEq, not_false_eq_true]

/-- What is escaped brings no bar of its own, wherever it stands. -/
theorem bareBars_escapeBars (before : Option Char) (text : String) :
    bareBars before (Report.escapeBars text).toList = 0 := by
  rw [Report.escapeBars, String.toList_ofList]
  induction text.toList generalizing before with
  | nil => rfl
  | cons c cs ih =>
    rw [List.flatMap_cons, bareBars_append, ih, Nat.add_zero]
    split
    · rfl
    · next hc => exact bareBars_of_not_mem (by simpa using Ne.symm hc)

end Bars

/-- The text of a number has none of the characters that are no digits. -/
theorem not_mem_toString_nat {c : Char} (hc : c.isDigit = false) (n : Nat) :
    c ∉ (toString n).toList := by
  intro hmem
  rw [Nat.toString_eq_ofList_toDigits, String.toList_ofList] at hmem
  rw [Nat.isDigit_of_mem_toDigits (by decide) (by decide) hmem] at hc
  cases hc

/-! ### Rows -/

/-- A location with its parts as far as they are known. -/
theorem Location.describe_eq (l : Location) :
    l.describe = l.file ++ l.line.elim "" (fun n => ":" ++ toString n) ++
      l.symbol.elim "" (fun s => " (" ++ s ++ ")") := by
  obtain ⟨file, line, symbol⟩ := l
  cases line <;> cases symbol <;> rfl

/-- The symbol of a finding stands in brackets and brings its own bars only. -/
theorem bareBars_symbol (before : Option Char) (symbol : Option String) :
    bareBars before (symbol.elim "" fun s => " (" ++ s ++ ")").toList =
      symbol.elim 0 barCount := by
  cases symbol with
  | none => rfl
  | some s =>
    have hbefore : lastOf before " (".toList ≠ some '\\' := by simp [lastOf]
    have hopen : '|' ∉ " (".toList := by decide
    have hclose : '|' ∉ ")".toList := by decide
    simp only [Option.elim_some, String.toList_append, bareBars_append]
    rw [bareBars_eq_barCount hbefore, bareBars_of_not_mem hopen, bareBars_of_not_mem hclose,
      Nat.zero_add, Nat.add_zero]

/-- The line of a location brings no bar. -/
theorem barCount_describe (l : Location) :
    barCount l.describe = barCount l.file + l.symbol.elim 0 barCount := by
  have hline : '|' ∉ (l.line.elim "" fun n => ":" ++ toString n).toList := by
    cases l.line with
    | none => simp
    | some n => simpa using not_mem_toString_nat (by decide) n
  rw [l.describe_eq, barCount, String.toList_append, String.toList_append, bareBars_append,
    bareBars_append, bareBars_of_not_mem hline, bareBars_symbol]
  rfl

namespace Report

/-- A row has its four bars and those of the location. -/
theorem barCount_row (f : Finding) :
    barCount (row f) = 4 + barCount f.location.file + f.location.symbol.elim 0 barCount := by
  have hseverity : '|' ∉ f.severity.name.toList := by cases f.severity <;> decide
  have hbehind : ∀ before, bareBars before "` | ".toList = 1 := fun before => by
    cases before <;> rfl
  have hbetween : ∀ before, bareBars before " | ".toList = 1 := fun before => by
    cases before <;> rfl
  have hend : ∀ before, bareBars before " |".toList = 1 := fun before => by cases before <;> rfl
  have hlocation : bareBars (lastOf none "| `".toList) f.location.describe.toList =
      barCount f.location.describe := bareBars_eq_barCount (by simp [lastOf]) _
  have hstart : bareBars none "| `".toList = 1 := rfl
  rw [barCount, row]
  simp only [String.toList_append, bareBars_append, hstart, hlocation, hbehind,
    bareBars_of_not_mem hseverity, hbetween, bareBars_escapeBars, hend, barCount_describe]
  omega

/-! ### Lines -/

/-- The text stays on one line. -/
def IsLine (text : String) : Prop := '\n' ∉ text.toList

instance (text : String) : Decidable (IsLine text) := inferInstanceAs (Decidable (_ ∉ _))

theorem isLine_append {a b : String} : IsLine (a ++ b) ↔ IsLine a ∧ IsLine b := by
  simp [IsLine, not_or]

theorem isLine_toString (n : Nat) : IsLine (toString n) := not_mem_toString_nat (by decide) n

theorem isLine_escapeBars {text : String} (h : IsLine text) : IsLine (escapeBars text) := by
  rw [IsLine, escapeBars, String.toList_ofList, List.mem_flatMap]
  intro hmem
  obtain ⟨c, hc, hline⟩ := hmem
  split at hline
  · simp at hline
  · exact h (List.mem_singleton.1 hline ▸ hc)

theorem isLine_intercalate {sep : String} (hsep : IsLine sep) {texts : List String}
    (h : ∀ text ∈ texts, IsLine text) : IsLine (sep.intercalate texts) := by
  rw [IsLine, String.toList_intercalate, ← joinWith_eq_intercalate]
  cases texts with
  | nil => simp [joinWith]
  | cons first texts =>
    obtain ⟨hfirst, hothers⟩ := List.forall_mem_cons.1 h
    rw [List.map_cons, joinWith_cons, List.mem_append, List.flatMap_map, List.mem_flatMap]
    rintro (hmem | ⟨text, htext, hmem⟩)
    · exact hfirst hmem
    · exact (List.mem_append.1 hmem).elim hsep (hothers text htext)

/-- The texts of a finding stay on one line. -/
structure IsUnbrokenFinding (f : Finding) : Prop where
  file : IsLine f.location.file
  symbol : ∀ s ∈ f.location.symbol, IsLine s
  description : IsLine f.description
  context : ∀ c ∈ f.context, IsLine c

/-- The texts that a report shows stay on one line. -/
structure IsUnbroken (r : Report) : Prop where
  project : IsLine r.project
  findings : ∀ f ∈ r.findings, IsUnbrokenFinding f

/-- A row is one line if the texts of its finding are. -/
theorem isLine_row {f : Finding} (h : IsUnbrokenFinding f) : IsLine (row f) := by
  have hdescribe : IsLine f.location.describe := by
    rw [f.location.describe_eq, isLine_append, isLine_append]
    refine ⟨⟨h.file, ?_⟩, ?_⟩
    · cases f.location.line with
      | none => decide
      | some n => exact isLine_append.2 ⟨by decide, isLine_toString n⟩
    · cases hsymbol : f.location.symbol with
      | none => decide
      | some s =>
        exact isLine_append.2 ⟨isLine_append.2 ⟨by decide, h.symbol s hsymbol⟩, by decide⟩
  have hdetails : IsLine (details f) := by
    rw [details]
    split
    · next context hcontext =>
      exact isLine_append.2 ⟨isLine_append.2 ⟨isLine_append.2 ⟨h.description, by decide⟩,
        h.context context hcontext⟩, by decide⟩
    · exact h.description
  have hseverity : IsLine f.severity.name := by cases f.severity <;> decide
  simp only [row, isLine_append]
  exact ⟨⟨⟨⟨⟨⟨by decide, hdescribe⟩, by decide⟩, hseverity⟩, by decide⟩,
    isLine_escapeBars hdetails⟩, by decide⟩

/-- Whether a line is the row of a finding: its first cell starts with a back quote. -/
def startsRow (line : String) : Bool := startsWith "| `".toList line.toList

theorem startsRow_row (f : Finding) : startsRow (row f) = true := by
  rw [startsRow, startsWith_iff]
  simp only [row, String.toList_append, List.append_assoc]
  exact List.prefix_append _ _

/-- A line that frames the rows. -/
structure IsFrame (line : String) : Prop where
  isLine : IsLine line
  noRow : startsRow line = false

instance (line : String) : Decidable (IsFrame line) :=
  decidable_of_iff (IsLine line ∧ startsRow line = false)
    ⟨fun h => ⟨h.1, h.2⟩, fun h => ⟨h.isLine, h.noRow⟩⟩

/-- How a line starts decides whether it is a row. -/
theorem IsFrame.append {label text : String} (h : IsFrame label)
    (hlength : 3 ≤ label.toList.length) (htext : IsLine text) : IsFrame (label ++ text) where
  isLine := isLine_append.2 ⟨h.isLine, htext⟩
  noRow := by
    have hlabel := h.noRow
    rw [startsRow, ← Bool.not_eq_true, startsWith_iff] at hlabel ⊢
    rw [String.toList_append]
    intro hstart
    exact hlabel (List.prefix_of_prefix_length_le hstart (List.prefix_append _ _) hlength)

/-- No line of the heading is taken for the row of a finding. -/
theorem isFrame_heading {r : Report} (h : r.IsUnbroken) : ∀ line ∈ r.heading, IsFrame line := by
  have hnames : ∀ name ∈ r.frameworks.map Framework.name, IsLine name := by
    intro name hname
    obtain ⟨framework, -, rfl⟩ := List.mem_map.1 hname
    cases framework <;> decide
  have hproject : IsFrame ("**Project:** " ++ r.project) :=
    IsFrame.append (by decide) (by decide) h.project
  have hframeworks :
      IsFrame ("**Frameworks:** " ++ ", ".intercalate (r.frameworks.map Framework.name)) :=
    IsFrame.append (by decide) (by decide) (isLine_intercalate (by decide) hnames)
  simp only [heading, List.forall_mem_append, List.forall_mem_cons, List.not_mem_nil,
    false_imp_iff, implies_true, and_true]
  refine ⟨⟨⟨by decide, by decide, hproject⟩, ?_⟩, by decide⟩
  split
  · simp
  · exact List.forall_mem_singleton.2 hframeworks

/-- No line of the summary is taken for the row of a finding. -/
theorem isFrame_summary (r : Report) : ∀ line ∈ r.summary, IsFrame line := by
  have hcount : ∀ label : String, IsFrame label → 3 ≤ label.toList.length → ∀ n : Nat,
      IsFrame (label ++ toString n ++ " |") := by
    intro label hlabel hlength n
    rw [String.append_assoc]
    exact hlabel.append hlength (isLine_append.2 ⟨isLine_toString n, by decide⟩)
  simp only [summary, List.forall_mem_append, List.forall_mem_cons, List.not_mem_nil,
    false_imp_iff, implies_true, and_true]
  refine ⟨⟨⟨by decide, by decide, by decide, by decide, ?_, ?_, ?_⟩, ?_⟩, by decide⟩
  · exact hcount _ (by decide) (by decide) _
  · exact hcount _ (by decide) (by decide) _
  · exact hcount _ (by decide) (by decide) _
  · split
    · simp
    · exact List.forall_mem_singleton.2 (hcount _ (by decide) (by decide) _)

/-- The table of a category has the rows of its findings between lines that are no rows. -/
theorem table_eq (r : Report) (category : FindingCategory) :
    ∃ above below, r.table category = above ++ (r.findingsIn category).map row ++ below ∧
      (∀ line ∈ above, IsFrame line) ∧ ∀ line ∈ below, IsFrame line := by
  have hlabel : IsLine category.label := by cases category <;> decide
  have htitle : ∀ n : Nat, IsFrame ("## " ++ category.label ++ " (" ++ toString n ++ ")") := by
    intro n
    simp only [String.append_assoc]
    refine IsFrame.append (by decide) (by decide) ?_
    simp only [isLine_append]
    exact ⟨hlabel, by decide, isLine_toString n, by decide⟩
  simp only [table]
  split
  · next hempty =>
    rw [List.isEmpty_iff.1 hempty]
    exact ⟨[], [], rfl, by simp, by simp⟩
  · refine ⟨_, _, rfl, ?_, List.forall_mem_singleton.2 (by decide)⟩
    simp only [List.forall_mem_cons, List.not_mem_nil, false_imp_iff, implies_true, and_true]
    exact ⟨htitle _, by decide, by decide, by decide⟩

/-- The lines of a report have no line feeds in them. -/
theorem isLine_of_mem_markdownLines {r : Report} (h : r.IsUnbroken) :
    ∀ line ∈ r.markdownLines, IsLine line := by
  simp only [markdownLines, List.forall_mem_append, List.forall_mem_cons, List.not_mem_nil,
    false_imp_iff, implies_true, and_true]
  refine ⟨⟨⟨⟨fun line hline => (isFrame_heading h line hline).isLine,
    fun line hline => (isFrame_summary r line hline).isLine⟩, ?_⟩, ?_⟩, by decide, by decide⟩
  · split
    · simp only [List.forall_mem_cons, List.not_mem_nil, false_imp_iff, implies_true, and_true]
      decide
    · simp
  · intro line hline
    obtain ⟨category, -, hline⟩ := List.mem_flatMap.1 hline
    obtain ⟨above, below, htable, habove, hbelow⟩ := r.table_eq category
    rw [htable, List.mem_append, List.mem_append] at hline
    rcases hline with (hline | hline) | hline
    · exact (habove line hline).isLine
    · obtain ⟨f, hf, rfl⟩ := List.mem_map.1 hline
      exact isLine_row (h.findings f (List.mem_filter.1 hf).1)
    · exact (hbelow line hline).isLine

/-- The rows of a report, those of each category together. -/
theorem filter_startsRow_markdownLines {r : Report} (h : r.IsUnbroken) :
    r.markdownLines.filter startsRow = (FindingCategory.all.flatMap r.findingsIn).map row := by
  have hframe : ∀ {lines : List String}, (∀ line ∈ lines, IsFrame line) →
      lines.filter startsRow = [] := fun hlines =>
    List.filter_eq_nil_iff.2 fun line hline => by simp [(hlines line hline).noRow]
  have hrows : ∀ findings : List Finding,
      (findings.map row).filter startsRow = findings.map row := by
    intro findings
    refine List.filter_eq_self.2 fun line hline => ?_
    obtain ⟨f, -, rfl⟩ := List.mem_map.1 hline
    exact startsRow_row f
  have htable : ∀ category, (r.table category).filter startsRow =
      (r.findingsIn category).map row := by
    intro category
    obtain ⟨above, below, htable, habove, hbelow⟩ := r.table_eq category
    rw [htable, List.filter_append, List.filter_append, hframe habove, hframe hbelow, hrows,
      List.nil_append, List.append_nil]
  have hend : ["---", "*Generated by reachscope*"].filter startsRow = [] := by decide
  have hnote : (if r.findings.isEmpty then ["No dead code found.", ""] else []).filter startsRow =
      [] := by
    split <;> decide
  rw [markdownLines, List.filter_append, List.filter_append, List.filter_append, List.filter_append,
    hframe (isFrame_heading h), hframe r.isFrame_summary, hnote, hend, List.filter_flatMap]
  simp only [htable, List.map_flatMap, List.nil_append, List.append_nil]

/-- Lines that end in line feeds are found again. -/
theorem splitOn_flatMap_line {lines : List String} (h : ∀ line ∈ lines, IsLine line) :
    splitOn '\n' (lines.flatMap fun line => (line ++ "\n").toList) =
      lines.map String.toList ++ [[]] := by
  induction lines with
  | nil => rfl
  | cons line lines ih =>
    obtain ⟨hline, hothers⟩ := List.forall_mem_cons.1 h
    have hcons : (line :: lines).flatMap (fun line => (line ++ "\n").toList) =
        line.toList ++ '\n' :: lines.flatMap fun line => (line ++ "\n").toList := by simp
    rw [hcons, splitOn_append_cons, splitOn_of_not_mem hline, ih hothers]
    rfl

/-- The lines of a text, cut at its line feeds. -/
def textLines (text : String) : List String := (splitOn '\n' text.toList).map .ofList

theorem textLines_toMarkdown {r : Report} (h : r.IsUnbroken) :
    textLines r.toMarkdown = r.markdownLines ++ [""] := by
  rw [textLines, toMarkdown, String.toList_join, List.flatMap_map,
    splitOn_flatMap_line (isLine_of_mem_markdownLines h), List.map_append, List.map_map]
  simp [Function.comp_def]

/-- Every finding is of one category. -/
theorem flatMap_findingsIn_perm (r : Report) :
    (FindingCategory.all.flatMap r.findingsIn).Perm r.findings := by
  have hcount : ∀ f category, (r.findingsIn category).count f =
      if f.category = category then r.findings.count f else 0 := by
    intro f category
    rw [findingsIn]
    split
    · next hf => exact List.count_filter (decide_eq_true hf)
    · next hf =>
      exact List.count_eq_zero.2 fun hmem => hf (of_decide_eq_true (List.mem_filter.1 hmem).2)
  refine List.perm_iff_count.2 fun f => ?_
  simp only [FindingCategory.all, List.flatMap_cons, List.flatMap_nil, List.append_nil,
    List.count_append, hcount]
  cases f.category <;> simp

/-- **Rows of a Markdown report.** When its texts stay on one line, the text of a report has exactly
one row for each finding. The row has three cells, whatever the description and the context say, if
and only if the file and the symbol have no bar without a backslash before it. -/
theorem rows_wellFormed_iff (r : Report) (h : r.IsUnbroken) :
    ((textLines r.toMarkdown).filter startsRow).Perm (r.findings.map row) ∧
      ∀ f ∈ r.findings, barCount (row f) = 4 ↔
        barCount f.location.file = 0 ∧ ∀ symbol ∈ f.location.symbol, barCount symbol = 0 := by
  constructor
  · have hend : [""].filter startsRow = [] := by decide
    rw [textLines_toMarkdown h, List.filter_append, filter_startsRow_markdownLines h, hend,
      List.append_nil]
    exact r.flatMap_findingsIn_perm.map row
  · intro f _
    rw [barCount_row]
    cases f.location.symbol with
    | none => simp
    | some symbol =>
      simp only [Option.elim_some, Option.mem_def, Option.some.injEq, forall_eq']
      omega

/-- A finding with bars in its details. -/
def barredDetails : Finding where
  category := .unusedExport
  location := { file := "src/a\\|b.ts", line := some 3, symbol := some "x" }
  description := "|Export| 'x' is never imported \\"
  context := some "a|b"

def barredDetailsReport : Report := ⟨"demo | app", [.react], {}, [barredDetails], []⟩

theorem isUnbroken_barredDetailsReport : barredDetailsReport.IsUnbroken := by
  refine ⟨by decide, List.forall_mem_singleton.2 ⟨by decide, ?_, by decide, ?_⟩⟩
  · exact fun s hs => by cases hs; decide
  · exact fun c hc => by cases hc; decide

theorem rows_wellFormed_barredDetails :
    ((textLines barredDetailsReport.toMarkdown).filter startsRow).Perm
        ["| `src/a\\|b.ts:3 (x)` | info | \\|Export\\| 'x' is never imported \\ (a\\|b) |"] ∧
      barCount (row barredDetails) = 4 := by
  have hrow : barredDetailsReport.findings.map row =
      ["| `src/a\\|b.ts:3 (x)` | info | \\|Export\\| 'x' is never imported \\ (a\\|b) |"] := by
    decide +kernel
  obtain ⟨hrows, hbars⟩ := rows_wellFormed_iff barredDetailsReport isUnbroken_barredDetailsReport
  refine ⟨hrow ▸ hrows, (hbars barredDetails (by decide)).2 ⟨by decide, ?_⟩⟩
  exact fun s hs => by cases hs; decide

/-- A finding whose file has a bar in its name. -/
def barredFile : Finding where
  category := .orphanedFile
  location := { file := "src/a|b.ts" }
  description := "File is not imported or reachable from any entry point"

/-- The bar of the file divides the first cell. -/
theorem barred_file_breaks_row :
    IsUnbroken ⟨"demo", [], {}, [barredFile], []⟩ ∧ barCount (row barredFile) = 5 := by
  refine ⟨⟨by decide, List.forall_mem_singleton.2 ⟨by decide, ?_, by decide, ?_⟩⟩, ?_⟩
  · exact fun s hs => by cases hs
  · exact fun c hc => by cases hc
  · rw [barCount_row]
    decide

end Report

end DeadCode
