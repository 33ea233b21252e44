import DeadCode.Config
import DeadCode.Proofs.JsonPretty
import DeadCode.Proofs.Relaxed
import DeadCode.Proofs.StringMap
import Mathlib.Data.List.Nodup

/-!
# DeadCode.Proofs.PartialConfig

Configurations that are written in part. A configuration is a value for each of its fields
(`Config.get`, `Config.ofValues`), and reading one from an object is reading each field by its name,
with the default where the name is not there (`Config.ofJson?_object`). So any of its fields can be
written, in any order, and those that are not written take their default; an object with another
name, or with a name twice, is no configuration.

Texts are taken in every layout: `Json.IsWrittenAs` leaves open which blanks stand between the
tokens and which characters of the strings are escaped.
-/

namespace DeadCode.Json

/-! ### Names of fields -/

/-- What the items have in front of their values. -/
def Items.labels : Items b → List (Label b)
  | .last _ label _ _ _ => [label]
  | .more _ label _ _ rest => label :: rest.labels

/-- The name of a field. A surrogate outside a pair stands for no character, and such a name for no
string. -/
def Label.name? : Label .curly → Option String
  | .name parts _ _ => (charsOf? true parts).map .ofList

/-- The names of the fields of an object, in the order in which they are written. -/
def Layout.names : Layout → List (Option String)
  | .filled .curly items => items.labels.map Label.name?
  | _ => []

/-- What the label alone says of an item is the same before and after reading. -/
theorem Items.map_values? {meaning : Nat → Label b → Layout → Option α} {key : α → β}
    {labelKey : Label b → β}
    (h : ∀ i label value a, meaning i label value = some a → key a = labelKey label) :
    ∀ (items : Items b) (i : Nat) (as : List α), items.values? meaning i = some as →
      as.map key = items.labels.map labelKey
  | .last _ label value _ _, i, as, has => by
    rw [values?, Option.map_eq_some_iff] at has
    obtain ⟨a, ha, rfl⟩ := has
    rw [labels, List.map_singleton, List.map_singleton, h i label value a ha]
  | .more _ label value _ rest, i, as, has => by
    rw [values?, Option.bind_eq_some_iff] at has
    obtain ⟨a, ha, hrest⟩ := has
    obtain ⟨others, hothers, rfl⟩ := Option.map_eq_some_iff.1 hrest
    rw [labels, List.map_cons, List.map_cons, h i label value a ha,
      map_values? h rest (i + 1) others hothers]

theorem Label.name?_of_field? {meaning : String → Layout → Option α} {label : Label .curly}
    {value : Layout} {field : String × α} (h : label.field? true meaning value = some field) :
    some field.1 = label.name? := by
  obtain _ | ⟨parts, before, after⟩ := label
  rw [field?, Option.bind_eq_some_iff] at h
  obtain ⟨name, hname, hfield⟩ := h
  obtain ⟨a, -, rfl⟩ := Option.map_eq_some_iff.1 hfield
  rw [name?, hname, Option.map_some]

/-- Only an object has names, and they are those of its fields. -/
theorem Layout.exists_fields_of_names {d : Layout} {depth : Nat} {v : Json}
    (h : d.value? true depth = some v) (hnames : d.names ≠ []) :
    ∃ fields, v = .object fields ∧ fields.map (fun field => some field.1) = d.names := by
  cases d with
  | scalar token => exact absurd rfl hnames
  | empty b inside => exact absurd rfl hnames
  | filled b items =>
    cases b with
    | square => exact absurd rfl hnames
    | curly =>
      cases depth with
      | zero => cases h
      | succ depth =>
        rw [value?, Option.map_eq_some_iff] at h
        obtain ⟨fields, hfields, rfl⟩ := h
        refine ⟨fields, rfl, Items.map_values? (fun _ label value field hfield => ?_) items 0 fields
          hfields⟩
        exact Label.name?_of_field? hfield

/-! ### Texts of values -/

/-- The text is a strict JSON text of the value. -/
def IsWrittenAs (v : Json) (text : String) : Prop :=
  ∃ d : Document, d.plainText = text ∧ d.value.value? true maxDepth = some v

/-- A document without comments is read as the value that its layout stands for. -/
theorem Document.parse_plainText (d : Document) :
    parse d.plainText = d.value.value? true maxDepth := by
  have hcomma : d.value.hasComma Style.plain.comma = false :=
    Layout.hasComma_of_false (fun _ => rfl) d.value
  have hread := d.complete_chars Style.isStrict_plain (fun _ => d.isJsonBlank_of_mem_last)
    (reads_readValue Style.isStrict_plain true maxDepth)
  rw [hcomma] at hread
  exact hread

theorem IsReadable.isWrittenAs_pretty {v : Json} (h : IsReadable true maxDepth v) :
    v.IsWrittenAs v.pretty := by
  obtain ⟨d, hwrite, hvalue⟩ := h.isLaidOut 0
  refine ⟨⟨[], d, [], none⟩, ?_, hvalue⟩
  rw [Document.plainText, Document.chars, space_nil, hwrite, pretty]
  simp

/-! ### Values that are read back -/

/-- What is encoded item by item is decoded item by item. -/
theorem mapM_map_eq_some {f : α → β} {g : β → Option α} {xs : List α}
    (h : ∀ a ∈ xs, g (f a) = some a) : (xs.map f).mapM g = some xs := by
  induction xs with
  | nil => rfl
  | cons x xs ih =>
    obtain ⟨hx, hxs⟩ := List.forall_mem_cons.1 h
    rw [List.map_cons, List.mapM_cons, hx, ih hxs]
    rfl

theorem strings?_ofStrings (items : List String) : (ofStrings items).strings? = some items :=
  mapM_map_eq_some fun _ _ => rfl

theorem map?_object (value : Json → Option β) (fields : List (String × Json)) :
    map? value (.object fields) =
      (fields.mapM fun field => (value field.2).map (field.1, ·)).map .ofList := by
  simp only [map?, Option.map_eq_bind, Option.bind_eq_bind]
  rfl

/-- A map is read back from its object. -/
theorem map?_ofMap {f : β → Json} {value : Json → Option β} (h : ∀ v, value (f v) = some v)
    (m : StringMap β) : map? value (ofMap f m) = some m := by
  have hentries : (m.toList.map fun e => (e.1, f e.2)).mapM
      (fun field => (value field.2).map (field.1, ·)) = some m.toList :=
    mapM_map_eq_some fun e _ => by rw [h, Option.map_some]
  rw [ofMap, map?_object, hentries, Option.map_some, StringMap.ofList_toList]

theorem isReadable_ofMap {checked : Bool} {depth : Nat} {f : β → Json}
    (h : ∀ v, IsReadable checked depth (f v)) (m : StringMap β) :
    IsReadable checked (depth + 1) (ofMap f m) := by
  refine .object fun field hfield => ?_
  obtain ⟨e, -, rfl⟩ := List.mem_map.1 hfield
  exact h e.2

/-- A record that allows no other fields is an object with some of its own, each once. -/
theorem fields?_object_eq_some_iff {names : List String} {partly : Bool}
    {fields found : List (String × Json)} :
    fields? names partly false (.object fields) = some found ↔
      found = fields ∧ (fields.map Prod.fst).Nodup ∧ ∀ field ∈ fields, field.1 ∈ names := by
  by_cases hknown : ∀ field ∈ fields, field.1 ∈ names
  · have hall : fields.filter (fun field => names.contains field.1) = fields :=
      List.filter_eq_self.2 fun field hfield => List.contains_iff_mem.2 (hknown field hfield)
    simp only [fields?, hall, Bool.false_or, beq_self_eq_true, Bool.and_true, decide_eq_true_eq,
      Option.ite_none_right_eq_some, Option.some.injEq]
    constructor
    · intro h
      exact ⟨h.2.symm, h.1, hknown⟩
    · intro h
      exact ⟨h.2.1, h.1.symm⟩
  · have hshort : (fields.filter fun field => names.contains field.1).length ≠ fields.length := by
      intro hlength
      refine hknown fun field hfield => List.contains_iff_mem.1 ?_
      exact List.length_filter_eq_length_iff.1 hlength field hfield
    simp only [fields?, beq_false_of_ne hshort, Bool.or_false, Bool.and_false, Bool.false_eq_true,
      if_false, reduceCtorEq, hknown, and_false]

end DeadCode.Json

namespace DeadCode

open Json (IsReadable isReadable_ofNat isReadable_ofStrings isReadable_ofMap maxCount)

namespace Config

/-! ### Fields -/

/-- The fields of a configuration. -/
inductive Field where
  | maxFileBytes
  | maxFileLines
  | barrelDirectories
  | pathAliases
  | reachability
  | exclude
  | reportBarrelGroups
  deriving DecidableEq

namespace Field

/-- The fields in their order. -/
def all : List Field := [
  maxFileBytes, maxFileLines, barrelDirectories, pathAliases, reachability, exclude,
  reportBarrelGroups]

/-- The name in a configuration. -/
def name : Field → String
  | maxFileBytes => "maxFileBytes"
  | maxFileLines => "maxFileLines"
  | barrelDirectories => "barrelDirectories"
  | pathAliases => "pathAliases"
  | reachability => "reachability"
  | exclude => "exclude"
  | reportBarrelGroups => "reportBarrelGroups"

/-- What a field holds. -/
def Value : Field → Type
  | maxFileBytes | maxFileLines => Nat
  | barrelDirectories | exclude => List String
  | pathAliases => StringMap (List String)
  | reachability => Reachability
  | reportBarrelGroups => Bool

def encode : (f : Field) → f.Value → Json
  | maxFileBytes, n => .ofNat n
  | maxFileLines, n => .ofNat n
  | barrelDirectories, items => .ofStrings items
  | pathAliases, m => .ofMap .ofStrings m
  | reachability, mode => .string mode.name
  | exclude, items => .ofStrings items
  | reportBarrelGroups, value => .bool value

def decode? : (f : Field) → Json → Option f.Value
  | maxFileBytes => Json.count?
  | maxFileLines => Json.count?
  | barrelDirectories => Json.strings?
  | pathAliases => Json.map? Json.strings?
  | reachability => fun v => v.choice?.bind Reachability.ofName?
  | exclude => Json.strings?
  | reportBarrelGroups => Json.bool?

theorem mem_all (f : Field) : f ∈ all := by
  cases f <;> decide

theorem name_injective {f g : Field} (h : f.name = g.name) : f = g := by
  cases f <;> cases g <;> simp_all [name]

end Field

theorem fieldNames_eq : fieldNames = Field.all.map Field.name := rfl

/-- The names that are accepted are those of the fields. -/
theorem mem_fieldNames {name : String} : name ∈ fieldNames ↔ ∃ f : Field, name = f.name := by
  rw [fieldNames_eq, List.mem_map]
  constructor
  · intro h
    obtain ⟨f, -, rfl⟩ := h
    exact ⟨f, rfl⟩
  · intro h
    obtain ⟨f, rfl⟩ := h
    exact ⟨f, f.mem_all, rfl⟩

/-- What the configuration has in a field. -/
def get (c : Config) : (f : Field) → f.Value
  | .maxFileBytes => c.maxFileBytes
  | .maxFileLines => c.maxFileLines
  | .barrelDirectories => c.barrelDirectories
  | .pathAliases => c.pathAliases
  | .reachability => c.reachability
  | .exclude => c.exclude
  | .reportBarrelGroups => c.reportBarrelGroups

/-- The configuration of some values. -/
def ofValues (values : (f : Field) → f.Value) : Config where
  maxFileBytes := values .maxFileBytes
  maxFileLines := values .maxFileLines
  barrelDirectories := values .barrelDirectories
  pathAliases := values .pathAliases
  reachability := values .reachability
  exclude := values .exclude
  reportBarrelGroups := values .reportBarrelGroups

theorem get_ofValues (values : (f : Field) → f.Value) (f : Field) :
    (ofValues values).get f = values f := by
  cases f <;> rfl

/-- The configuration with the fields in `kept` as they are in `c` and the others by default. -/
def keeping (c : Config) (kept : List Field) : Config :=
  ofValues fun f => if f ∈ kept then c.get f else default.get f

/-- A field with its name. -/
def entry (c : Config) (f : Field) : String × Json := (f.name, f.encode (c.get f))

/-- The object of some fields, in the order in which they are given. -/
def objectOf (c : Config) (kept : List Field) : Json := .object (kept.map c.entry)

theorem objectOf_all (c : Config) : c.objectOf Field.all = c.toJson := rfl

/-- With all fields kept, nothing is replaced by its default. -/
theorem keeping_all (c : Config) : c.keeping Field.all = c := by
  have hvalues : (fun f => if f ∈ Field.all then c.get f else default.get f) = c.get := by
    funext f
    rw [if_pos f.mem_all]
  rw [keeping, hvalues]
  rfl

/-! ### Reading -/

/-- The sizes are numbers of 64 bits. -/
structure FitsWord (c : Config) : Prop where
  maxFileBytes : c.maxFileBytes ≤ maxCount
  maxFileLines : c.maxFileLines ≤ maxCount

/-- Each field is read back from its own encoding. -/
theorem decode?_encode {c : Config} (h : c.FitsWord) (f : Field) :
    f.decode? (f.encode (c.get f)) = some (c.get f) := by
  cases f with
  | maxFileBytes => exact Json.count?_ofNat h.maxFileBytes
  | maxFileLines => exact Json.count?_ofNat h.maxFileLines
  | barrelDirectories => exact Json.strings?_ofStrings c.barrelDirectories
  | pathAliases => exact Json.map?_ofMap Json.strings?_ofStrings c.pathAliases
  | reachability =>
    show Reachability.ofName? c.reachability.name = some c.reachability
    cases c.reachability <;> decide
  | exclude => exact Json.strings?_ofStrings c.exclude
  | reportBarrelGroups => rfl

theorem isReadable_objectOf {c : Config} (h : c.FitsWord) (kept : List Field) {depth : Nat} :
    IsReadable true (depth + 3) (c.objectOf kept) := by
  refine .object fun field hfield => ?_
  obtain ⟨f, -, rfl⟩ := List.mem_map.1 hfield
  cases f with
  | maxFileBytes => exact isReadable_ofNat fun _ => h.maxFileBytes
  | maxFileLines => exact isReadable_ofNat fun _ => h.maxFileLines
  | barrelDirectories => exact isReadable_ofStrings c.barrelDirectories
  | pathAliases => exact isReadable_ofMap isReadable_ofStrings c.pathAliases
  | reachability => exact .string _
  | exclude => exact isReadable_ofStrings c.exclude
  | reportBarrelGroups => exact .bool _

/-- An object is a configuration if its names are those of fields, each once, and each field is
what stands under its name, or its default. -/
theorem ofJson?_object {fields : List (String × Json)} {c : Config} :
    ofJson? (.object fields) = some c ↔
      (fields.map Prod.fst).Nodup ∧ (∀ field ∈ fields, field.1 ∈ fieldNames) ∧
        ∀ f : Field, Json.default? fields f.name (default.get f) f.decode? = some (c.get f) := by
  simp only [ofJson?, Option.bind_eq_bind, Option.bind_eq_some_iff, Option.pure_def,
    Option.some.injEq, Json.fields?_object_eq_some_iff]
  constructor
  · intro h
    obtain ⟨_, ⟨rfl, hnodup, hknown⟩, _, _, _, _, _, _, _, _, _, _, _, _, _, _, rfl⟩ := h
    refine ⟨hnodup, hknown, fun f => ?_⟩
    cases f <;> assumption
  · intro h
    obtain ⟨hnodup, hknown, hvalues⟩ := h
    exact ⟨fields, ⟨rfl, hnodup, hknown⟩, _, hvalues .maxFileBytes, _, hvalues .maxFileLines,
      _, hvalues .barrelDirectories, _, hvalues .pathAliases, _, hvalues .reachability,
      _, hvalues .exclude, _, hvalues .reportBarrelGroups, rfl⟩

/-- A field is found under its name exactly when it is kept. -/
theorem lookup_map_entry (c : Config) (kept : List Field) (f : Field) :
    (kept.map c.entry).lookup f.name = if f ∈ kept then some (c.entry f).2 else none := by
  induction kept with
  | nil => rfl
  | cons g kept ih =>
    rw [List.map_cons, entry, List.lookup_cons, ih]
    by_cases h : f = g
    · subst h
      simp [entry]
    · have hname : (f.name == g.name) = false :=
        beq_eq_false_iff_ne.2 fun hname => h (Field.name_injective hname)
      simp [hname, h]

/-- A configuration is read back from its object, with defaults for the fields that are left out. -/
theorem ofJson?_objectOf {c : Config} (h : c.FitsWord) {kept : List Field} (hkept : kept.Nodup) :
    ofJson? (c.objectOf kept) = some (c.keeping kept) := by
  refine ofJson?_object.2 ⟨?_, fun field hfield => ?_, fun f => ?_⟩
  · rw [List.map_map]
    exact hkept.map (f := Prod.fst ∘ c.entry) fun _ _ => Field.name_injective
  · obtain ⟨f, -, rfl⟩ := List.mem_map.1 hfield
    exact mem_fieldNames.2 ⟨f, rfl⟩
  · rw [keeping, get_ofValues, Json.default?, lookup_map_entry]
    by_cases hf : f ∈ kept
    · simp only [if_pos hf]
      exact decode?_encode h f
    · simp only [if_neg hf]

/-- A document is no configuration if it has a name that no field has, or one of a field twice. -/
theorem parse_eq_none_of_names {d : Json.Document}
    (h : (∃ name ∈ d.value.names, ∀ f : Field, name ≠ some f.name) ∨
      ∃ f : Field, 1 < d.value.names.count (some f.name)) : parse d.plainText = none := by
  have hnames : d.value.names ≠ [] := by
    rcases h with ⟨name, hname, -⟩ | ⟨f, hf⟩
    · exact List.ne_nil_of_mem hname
    · exact List.ne_nil_of_mem (List.count_pos_iff.1 (Nat.zero_lt_of_lt hf))
  refine Option.eq_none_iff_forall_ne_some.2 fun c hc => ?_
  rw [parse, d.parse_plainText, Option.bind_eq_some_iff] at hc
  obtain ⟨v, hvalue, hconfig⟩ := hc
  obtain ⟨fields, rfl, hfields⟩ := Json.Layout.exists_fields_of_names hvalue hnames
  obtain ⟨hnodup, hknown, -⟩ := ofJson?_object.1 hconfig
  rw [← hfields] at h
  rcases h with ⟨name, hname, hother⟩ | ⟨f, hf⟩
  · obtain ⟨field, hfield, rfl⟩ := List.mem_map.1 hname
    obtain ⟨f, hf⟩ := mem_fieldNames.1 (hknown field hfield)
    exact hother f (congrArg some hf)
  · have hdistinct : (fields.map fun field => some field.1).Nodup := by
      have hsome := hnodup.map (f := some) fun _ _ => Option.some.inj
      rwa [List.map_map] at hsome
    exact absurd hf (Nat.not_lt.2 (List.nodup_iff_count_le_one.1 hdistinct _))

/-- Any fields of a configuration can be written, in any order and layout: what is read has them
from the configuration and the others by default. With all fields, that is the configuration itself.
An object with a name that no field has, or with the name of a field twice, is refused. -/
theorem parse_written_fields :
    (∀ (c : Config) (kept : List Field), c.FitsWord → kept.Nodup →
      (c.objectOf kept).IsWrittenAs (c.objectOf kept).pretty ∧
        ∀ text, (c.objectOf kept).IsWrittenAs text → parse text = some (c.keeping kept)) ∧
      (∀ c : Config, c.objectOf Field.all = c.toJson ∧ c.keeping Field.all = c) ∧
      ∀ d : Json.Document,
        ((∃ name ∈ d.value.names, ∀ f : Field, name ≠ some f.name) ∨
          ∃ f : Field, 1 < d.value.names.count (some f.name)) → parse d.plainText = none := by
  refine ⟨fun c kept h hkept => ⟨(isReadable_objectOf h kept).isWrittenAs_pretty, ?_⟩,
    fun c => ⟨c.objectOf_all, c.keeping_all⟩, fun d => parse_eq_none_of_names⟩
  intro text htext
  obtain ⟨d, rfl, hvalue⟩ := htext
  rw [parse, d.parse_plainText, hvalue, Option.bind_some, ofJson?_objectOf h hkept]

/-- A configuration with the largest size, and with strings that have to be escaped. -/
def quotedAliases : Config where
  maxFileBytes := maxCount
  maxFileLines := 0
  barrelDirectories := [""]
  pathAliases := .ofList [("\"\\", ["é\n", "\u0001"]), ("", [])]
  reachability := .transitive
  exclude := ["/"]
  reportBarrelGroups := false

/-- The parts of a string whose characters need no escape. -/
def plainParts (s : String) : List Json.StringPart :=
  s.toList.filterMap fun c =>
    if h : 0x20 ≤ c.toNat ∧ c ≠ '"' ∧ c ≠ '\\' then some (.char c h) else none

/-- An object with one name twice, the second time with its first letter escaped. -/
def repeatedExclude : Json.Document where
  before := []
  value := .filled .curly
    (.more [] (.name (plainParts "exclude") [] []) (.empty .square []) []
      (.last [] (.name (.unit '0' '0' '6' '5' 0x65 rfl :: plainParts "xclude") [] [])
        (.empty .square []) [] none))
  after := []
  last := none

theorem parse_written_fields_quotedAliases :
    quotedAliases.FitsWord ∧
      parse (quotedAliases.objectOf [.reachability, .pathAliases, .maxFileBytes]).pretty =
        some { default with
          maxFileBytes := maxCount
          pathAliases := quotedAliases.pathAliases
          reachability := .transitive } ∧
      repeatedExclude.plainText = "\x7b\"exclude\":[],\"\\u0065xclude\":[]\x7d" ∧
      parse repeatedExclude.plainText = none := by
  have hfits : quotedAliases.FitsWord := ⟨by decide, by decide⟩
  obtain ⟨hwritten, hread⟩ := parse_written_fields.1 quotedAliases
    [.reachability, .pathAliases, .maxFileBytes] hfits (by decide)
  have htwice : 1 < repeatedExclude.value.names.count (some Field.exclude.name) := by decide
  exact ⟨hfits, hread _ hwritten, by decide +kernel,
    parse_written_fields.2.2 repeatedExclude (.inr ⟨.exclude, htwice⟩)⟩

end Config

end DeadCode
