import DeadCode.Proofs.JsonPretty
import DeadCode.Report.Basic

/-!
# DeadCode.Proofs.Report

The JSON text of a report loses nothing. A field that is left out when there is nothing to say is
found or not found by its name, so that each part of a report can be told from its JSON value; and
the value can be told from its text, because it is read back.
-/

namespace DeadCode

open Json (IsReadable isReadable_ofNat isReadable_ofStrings maxCount)

/-! ### Names -/

theorem Severity.name_injective {a b : Severity} (h : a.name = b.name) : a = b := by
  cases a <;> cases b <;> simp_all [name]

theorem FindingCategory.name_injective {a b : FindingCategory} (h : a.name = b.name) : a = b := by
  cases a <;> cases b <;> simp_all [name]

theorem Framework.name_injective {a b : Framework} (h : a.name = b.name) : a = b := by
  cases a <;> cases b <;> simp_all [name]

/-! ### Fields -/

/-- A field that is there when it has a value is found by its name only. -/
theorem Json.lookup_optional (key name : String) (f : α → Json) (o : Option α) :
    (o.toList.map ((name, f ·))).lookup key = if key = name then o.map f else none := by
  cases o <;> by_cases h : key = name <;> simp [h]

theorem Location.toJson_injective {l m : Location} (h : l.toJson = m.toJson) : l = m := by
  obtain ⟨hfile, hrest⟩ := List.cons.inj (Json.object.inj h)
  have hline : l.line.map Json.ofNat = m.line.map Json.ofNat := by
    simpa [List.lookup_append, Json.lookup_optional] using congrArg (List.lookup "line") hrest
  have hsymbol : l.symbol.map Json.string = m.symbol.map Json.string := by
    simpa [List.lookup_append, Json.lookup_optional] using congrArg (List.lookup "symbol") hrest
  rw [Location.mk.injEq]
  exact ⟨Json.string.inj (Prod.mk.inj hfile).2,
    Option.map_injective (fun _ _ => Json.ofNat_injective) hline,
    Option.map_injective (fun _ _ => Json.string.inj) hsymbol⟩

/-- Different findings have different objects. -/
theorem Finding.toJson_injective {f g : Finding} (h : f.toJson = g.toJson) : f = g := by
  have hfields := Json.object.inj h
  simp only [List.cons_append, List.nil_append, List.cons.injEq, Prod.mk.injEq, true_and,
    Json.string.injEq] at hfields
  obtain ⟨htype, hcategory, hseverity, hlocation, hdescription, hrest⟩ := hfields
  have hcontext : f.context.map Json.string = g.context.map Json.string := by
    simpa [Json.lookup_optional] using congrArg (List.lookup "context") hrest
  rw [Finding.mk.injEq]
  exact ⟨htype, FindingCategory.name_injective hcategory, Severity.name_injective hseverity,
    Location.toJson_injective hlocation, hdescription,
    Option.map_injective (fun _ _ => Json.string.inj) hcontext⟩

namespace Report

/-- The list of skipped files is told from the field that is left out when it is empty. -/
theorem skippedFiles_eq_of_field {xs ys : List String}
    (h : (if xs.isEmpty then [] else [("skipped_files", Json.ofStrings xs)]) =
      if ys.isEmpty then [] else [("skipped_files", Json.ofStrings ys)]) : xs = ys := by
  cases xs with
  | nil => cases ys <;> simp_all
  | cons x xs =>
    cases ys with
    | nil => simp at h
    | cons y ys => exact Json.ofStrings_injective (by simpa using h)

/-- No two reports share an object. -/
theorem toJson_injective {r s : Report} (h : r.toJson = s.toJson) : r = s := by
  have hfields := Json.object.inj h
  simp only [List.cons_append, List.nil_append, List.cons.injEq, Prod.mk.injEq, true_and,
    Json.string.injEq, Json.object.injEq, Json.array.injEq, Metrics.fields, Metrics.entries,
    List.map_cons, List.map_nil] at hfields
  obtain ⟨hproject, hframeworks, ⟨horphaned, hexports, hdependencies, -⟩, hfindings, hskipped⟩ :=
    hfields
  rw [Report.mk.injEq, Metrics.mk.injEq]
  exact ⟨hproject, List.map_injective_iff.2 (fun _ _ => Framework.name_injective)
      (Json.ofStrings_injective hframeworks),
    ⟨Json.ofNat_injective horphaned, Json.ofNat_injective hexports,
      Json.ofNat_injective hdependencies⟩,
    List.map_injective_iff.2 (fun _ _ => Finding.toJson_injective) hfindings,
    skippedFiles_eq_of_field hskipped⟩

/-! ### Reading -/

/-- Every number in a report is one of 64 bits. -/
structure FitsWord (r : Report) : Prop where
  metrics : ∀ entry ∈ r.metrics.entries, entry.2 ≤ maxCount
  findings : r.findings.length ≤ maxCount
  skippedFiles : r.skippedFiles.length ≤ maxCount
  lines : ∀ f ∈ r.findings, ∀ n ∈ f.location.line, n ≤ maxCount

end Report

variable {checked : Bool} {depth : Nat}

theorem Location.isReadable_toJson {l : Location}
    (h : checked = true → ∀ n ∈ l.line, n ≤ maxCount) :
    IsReadable checked (depth + 1) l.toJson := by
  refine .object fun field hfield => ?_
  simp only [List.mem_cons, List.mem_append, List.mem_map, Option.mem_toList] at hfield
  obtain rfl | ⟨n, hn, rfl⟩ | ⟨s, -, rfl⟩ := hfield
  · exact .string _
  · exact isReadable_ofNat fun hchecked => h hchecked n hn
  · exact .string _

theorem Finding.isReadable_toJson {f : Finding}
    (h : checked = true → ∀ n ∈ f.location.line, n ≤ maxCount) :
    IsReadable checked (depth + 2) f.toJson := by
  refine .object fun field hfield => ?_
  simp only [List.cons_append, List.nil_append, List.mem_cons, List.mem_map,
    Option.mem_toList] at hfield
  obtain rfl | rfl | rfl | rfl | rfl | ⟨s, -, rfl⟩ := hfield
  · exact .string _
  · exact .string _
  · exact .string _
  · exact Location.isReadable_toJson h
  · exact .string _
  · exact .string _

theorem Metrics.isReadable_of_mem_fields {m : Metrics}
    (h : checked = true → ∀ entry ∈ m.entries, entry.2 ≤ maxCount) {field : String × Json}
    (hfield : field ∈ m.fields) : IsReadable checked depth field.2 := by
  obtain ⟨entry, hentry, rfl⟩ := List.mem_map.1 hfield
  exact isReadable_ofNat fun hchecked => h hchecked entry hentry

namespace Report

/-- A report can be read back when its counts fit a word. -/
theorem isReadable_toJson {r : Report} (h : checked = true → r.FitsWord) :
    IsReadable checked (depth + 4) r.toJson := by
  have hsummary : IsReadable checked (depth + 3) (.object (r.metrics.fields ++ [
      ("total_findings", .ofNat r.findings.length),
      ("skipped_files", .ofNat r.skippedFiles.length)])) := by
    refine .object fun field hfield => ?_
    simp only [List.mem_append, List.mem_cons, List.not_mem_nil, or_false] at hfield
    obtain hfield | rfl | rfl := hfield
    · exact Metrics.isReadable_of_mem_fields (fun hchecked => (h hchecked).metrics) hfield
    · exact isReadable_ofNat fun hchecked => (h hchecked).findings
    · exact isReadable_ofNat fun hchecked => (h hchecked).skippedFiles
  have hfindings : IsReadable checked (depth + 3) (.array (r.findings.map Finding.toJson)) := by
    refine .array fun v hv => ?_
    obtain ⟨f, hf, rfl⟩ := List.mem_map.1 hv
    exact Finding.isReadable_toJson fun hchecked => (h hchecked).lines f hf
  refine .object fun field hfield => ?_
  simp only [List.mem_append, List.mem_cons, List.not_mem_nil, or_false] at hfield
  obtain (rfl | rfl | rfl | rfl) | hfield := hfield
  · exact .string _
  · exact isReadable_ofStrings _
  · exact hsummary
  · exact hfindings
  · split at hfield
    · simp at hfield
    · obtain rfl := List.mem_singleton.1 hfield
      exact isReadable_ofStrings _

/-- The text of a report is read as its JSON value. -/
theorem parse_toJsonText {r : Report} (h : r.FitsWord) : Json.parse r.toJsonText = some r.toJson :=
  (isReadable_toJson fun _ => h : IsReadable true Json.maxDepth r.toJson).complete_pretty

/-- Nothing is asked of the numbers here: one that is out of range has a text of its own too. -/
theorem toJsonText_injective : Function.Injective toJsonText := by
  intro r s h
  have hr : IsReadable false Json.maxDepth r.toJson := isReadable_toJson (by simp)
  have hs : IsReadable false Json.maxDepth s.toJson := isReadable_toJson (by simp)
  exact toJson_injective (hr.eq_of_pretty_eq hs h)

end Report

/-- Reports with the same JSON text are the same, field by field, and the summary that is read from
the text of a report has the lengths of its lists of findings and of skipped files. -/
theorem reportText_lossless :
    Function.Injective Report.toJsonText ∧
      ∀ r : Report, r.FitsWord → ∃ fields summary,
        Json.parse r.toJsonText = some (.object fields) ∧
        fields.lookup "summary" = some (.object summary) ∧
        Json.required? summary "total_findings" Json.count? = some r.findings.length ∧
        Json.required? summary "skipped_files" Json.count? = some r.skippedFiles.length := by
  refine ⟨Report.toJsonText_injective, fun r h => ⟨_, _, Report.parse_toJsonText h, rfl, ?_, ?_⟩⟩
  · exact Json.count?_ofNat h.findings
  · exact Json.count?_ofNat h.skippedFiles

/-- A report in which each field that can be left out is there. -/
def locatedReport : Report where
  project := "\"quoted\"\n"
  frameworks := [.vue, .next]
  metrics := { orphanedFiles := 2, unusedExports := 1 }
  findings := [{
    category := .unusedExport
    location := ⟨"src/a.js", some 7, some "f\u0001"⟩
    description := "Export 'f' is never imported"
    context := some "\\" }]
  skippedFiles := ["dist/a.js", "dist/b.js"]

theorem reportText_lossless_locatedReport :
    locatedReport.FitsWord ∧ ∃ fields summary,
      Json.parse locatedReport.toJsonText = some (.object fields) ∧
      fields.lookup "summary" = some (.object summary) ∧
      Json.required? summary "total_findings" Json.count? = some 1 ∧
      Json.required? summary "skipped_files" Json.count? = some 2 := by
  have hfits : locatedReport.FitsWord := ⟨by decide, by decide, by decide, by decide⟩
  exact ⟨hfits, reportText_lossless.2 locatedReport hfits⟩

end DeadCode
