import DeadCode.Json.Decode
import DeadCode.Json.Writer
import DeadCode.Proofs.JsonLayout
import Mathlib.Data.List.Basic

/-!
# DeadCode.Proofs.JsonPretty

What is written with a line per item is read back. Every value has a `Layout` that is written as
`prettyChars` writes the value and that stands for it, so that what is known of the readers of
layouts applies. A value that can be read back (`IsReadable`) has literals of the grammar for its
numbers and is not nested too deep; nothing is asked of its strings.
-/

namespace DeadCode.Json

/-! ### Counts -/

/-- The literal of a natural number. -/
def natLiteral (n : Nat) : NumberLiteral := ⟨false, Nat.toDigits 10 n, [], [], [], []⟩

theorem text_natLiteral (n : Nat) : (natLiteral n).text = Nat.toDigits 10 n := by
  simp [natLiteral, NumberLiteral.text]

theorem ofNat_eq (n : Nat) : ofNat n = .number (.ofList (natLiteral n).text) := by
  rw [text_natLiteral, ofNat, Nat.toString_eq_ofList_toDigits]

/-- The first digit is zero only for the number zero. -/
theorem eq_zero_of_head?_toDigits {n : Nat} (h : (Nat.toDigits 10 n).head? = some '0') : n = 0 := by
  induction n using Nat.strongRecOn with
  | ind n ih =>
    by_cases hn : n < 10
    · rw [Nat.toDigits_of_lt_base hn] at h
      simpa [Nat.digitChar_eq_zero] using h
    · have hle : 10 ≤ n := by omega
      rw [Nat.toDigits_of_base_le (by decide) hle,
        List.head?_append_of_ne_nil _ Nat.toDigits_ne_nil] at h
      have hzero := ih (n / 10) (by omega) h
      omega

/-- The digits of a number have no leading zero. -/
theorem isWritten_natLiteral (n : Nat) : (natLiteral n).IsWritten where
  whole_ne_nil := Nat.toDigits_ne_nil
  whole_digits := fun _ hc => Nat.isDigit_of_mem_toDigits (by decide) (by decide) hc
  no_leading_zero := fun h => by
    rw [natLiteral, eq_zero_of_head?_toDigits h]
    rfl
  fraction_digits := by simp [natLiteral]
  exponent := .inl ⟨rfl, rfl, rfl⟩

/-- The digits of a number have its value. -/
theorem digitsValue_toDigits (n : Nat) : digitsValue (Nat.toDigits 10 n) = n := by
  have hvalue : digitsValue (Nat.toDigits 10 n) = Nat.ofDigitChars 10 (Nat.toDigits 10 n) 0 := by
    simp only [digitsValue, Nat.ofDigitChars_eq_foldl, Nat.mul_comm]
  rw [hvalue, Nat.ofDigitChars_ten_toDigits]

/-- Different numbers are written differently. -/
theorem ofNat_injective {m n : Nat} (h : ofNat m = ofNat n) : m = n := by
  rw [ofNat_eq, ofNat_eq, text_natLiteral, text_natLiteral] at h
  have hdigits := String.ofList_injective (Json.number.inj h)
  rw [← digitsValue_toDigits m, hdigits, digitsValue_toDigits]

/-- A count that 64 bits can hold is read as itself. -/
theorem count?_ofNat {n : Nat} (h : n ≤ maxCount) : (ofNat n).count? = some n := by
  have hdigits : (Nat.toDigits 10 n).all Char.isDigit = true :=
    List.all_eq_true.2 (isWritten_natLiteral n).whole_digits
  rw [ofNat_eq, text_natLiteral]
  simp [count?, digitsValue_toDigits, hdigits, h]

/-- The value of more digits behind those of `n`. -/
def digitsFrom (n : Nat) (digits : List Char) : Nat :=
  digits.foldl (fun n c => n * 10 + (c.toNat - '0'.toNat)) n

theorem le_digitsFrom (n : Nat) (digits : List Char) : n ≤ digitsFrom n digits := by
  induction digits generalizing n with
  | nil => exact Nat.le_refl n
  | cons c digits ih =>
    have hle : n * 10 + (c.toNat - '0'.toNat) ≤ digitsFrom n (c :: digits) := ih _
    omega

/-- No digit is dropped as long as their value has at most 64 bits. -/
theorem appendDigits_of_le {n : Nat} {digits : List Char} (h : digitsFrom n digits ≤ maxCount) :
    appendDigits n digits = (digitsFrom n digits, 0) := by
  induction digits generalizing n with
  | nil => rfl
  | cons c digits ih =>
    have hnext : n * 10 + (c.toNat - '0'.toNat) ≤ 0xFFFFFFFFFFFFFFFF :=
      (le_digitsFrom _ digits).trans h
    rw [appendDigits, if_pos hnext]
    exact ih h

/-- A count is small enough to be read. -/
theorem inRange_natLiteral {n : Nat} (h : n ≤ maxCount) : (natLiteral n).inRange = true := by
  have hvalue : digitsFrom 0 (Nat.toDigits 10 n) = n := digitsValue_toDigits n
  have happend := appendDigits_of_le (hvalue.le.trans h)
  rw [NumberLiteral.inRange, natLiteral, happend]
  simp [appendDigits, digitsValue, exponentLimit]

/-! ### Strings -/

/-- The two digits of an escaped control character are read back. -/
theorem hexUnit?_control {n : Nat} (h : n < 0x20) :
    hexUnit? '0' '0' (hexDigit (n / 16)) (hexDigit (n % 16)) = some n := by
  revert n
  decide

/-- An escaped character is one part of a string. -/
theorem exists_part (c : Char) : ∃ part : StringPart, part.text = escape c ∧
    ∀ checked parts, charsOf? checked (part :: parts) = (charsOf? checked parts).map (c :: ·) := by
  unfold escape
  split_ifs with hquote hbackslash hn hr ht hb hf hcontrol
  · exact ⟨.letter '"' c (by rw [hquote]; rfl), rfl, fun _ _ => rfl⟩
  · exact ⟨.letter '\\' c (by rw [hbackslash]; rfl), rfl, fun _ _ => rfl⟩
  · exact ⟨.letter 'n' c (by rw [hn]; rfl), rfl, fun _ _ => rfl⟩
  · exact ⟨.letter 'r' c (by rw [hr]; rfl), rfl, fun _ _ => rfl⟩
  · exact ⟨.letter 't' c (by rw [ht]; rfl), rfl, fun _ _ => rfl⟩
  · exact ⟨.letter 'b' c (by rw [hb]; rfl), rfl, fun _ _ => rfl⟩
  · exact ⟨.letter 'f' c (by rw [hf]; rfl), rfl, fun _ _ => rfl⟩
  · refine ⟨.unit '0' '0' _ _ c.toNat (hexUnit?_control hcontrol), rfl, fun checked parts => ?_⟩
    -- a control character is no surrogate
    have hleading : isLeading c.toNat = false := by simp [isLeading]; omega
    have htrailing : isTrailing c.toNat = false := by simp [isTrailing]; omega
    conv_lhs => unfold charsOf?
    simp [hleading, htrailing]
  · exact ⟨.char c ⟨by omega, hquote, hbackslash⟩, rfl, fun _ _ => rfl⟩

/-- Every string can be written between quotes. -/
theorem exists_parts (s : List Char) :
    ∃ parts : List StringPart, partsText parts = s.flatMap escape ++ ['"'] ∧
      ∀ checked, charsOf? checked parts = some s := by
  induction s with
  | nil => exact ⟨[], rfl, fun _ => rfl⟩
  | cons c s ih =>
    obtain ⟨part, htext, hvalue⟩ := exists_part c
    obtain ⟨parts, htexts, hvalues⟩ := ih
    refine ⟨part :: parts, ?_, fun checked => ?_⟩
    · rw [partsText] at htexts ⊢
      rw [List.flatMap_cons, List.append_assoc, htexts, htext, List.flatMap_cons, List.append_assoc]
    · rw [hvalue, hvalues, Option.map_some]

/-- Every string is written as a sequence of characters and escapes that says it. -/
theorem exists_quote (s : String) : ∃ parts : List StringPart, '"' :: partsText parts = quote s ∧
    ∀ checked, charsOf? checked parts = some s.toList := by
  obtain ⟨parts, htext, hvalue⟩ := exists_parts s.toList
  exact ⟨parts, by rw [htext, quote, List.cons_append], hvalue⟩

/-! ### Values -/

/-- A value that can be read back: its numbers are literals of the grammar, in range if that is
`checked`, and its arrays and objects are nested at most as deep as the index says. -/
inductive IsReadable (checked : Bool) : Nat → Json → Prop
  | null : IsReadable checked depth .null
  | bool (value : Bool) : IsReadable checked depth (.bool value)
  | number (literal : NumberLiteral) : literal.IsWritten →
    (checked = true → literal.inRange = true) →
    IsReadable checked depth (.number (.ofList literal.text))
  | string (s : String) : IsReadable checked depth (.string s)
  | array {items : List Json} : (∀ v ∈ items, IsReadable checked depth v) →
    IsReadable checked (depth + 1) (.array items)
  | object {fields : List (String × Json)} : (∀ field ∈ fields, IsReadable checked depth field.2) →
    IsReadable checked (depth + 1) (.object fields)

/-- Texts on lines of their own with commas between them. -/
def prettyLines (indent : Nat) : List (List Char) → List Char
  | [] => []
  | [text] => lineStart indent ++ text
  | text :: texts => lineStart indent ++ text ++ ',' :: prettyLines indent texts

/-- Items stand on lines of their own. -/
theorem prettyItems_eq (indent : Nat) (items : List Json) :
    prettyItems indent items = prettyLines indent (items.map (prettyChars indent)) := by
  induction items with
  | nil => simp [prettyItems, prettyLines]
  | cons v items ih =>
    cases items with
    | nil => simp [prettyItems, prettyLines]
    | cons w items =>
      rw [prettyItems, ih]
      · rfl
      · simp

/-- A field as it stands on its line. -/
def prettyField (indent : Nat) (field : String × Json) : List Char :=
  quote field.1 ++ ':' :: ' ' :: prettyChars indent field.2

theorem prettyFields_eq (indent : Nat) (fields : List (String × Json)) :
    prettyFields indent fields = prettyLines indent (fields.map (prettyField indent)) := by
  induction fields with
  | nil => simp [prettyFields, prettyLines]
  | cons field fields ih =>
    cases fields with
    | nil => simp [prettyFields, prettyLines, prettyField]
    | cons next fields =>
      rw [prettyFields, ih]
      · simp [prettyLines, prettyField]
      · simp

theorem Style.isStrict_plain : Style.plain.IsStrict := by
  intro g
  simp only [Style.plain, Gap.plain, Gap.hasComment, List.any_map, List.any_eq_false]
  intro f _
  cases f <;> simp [Filler.plain, Filler.isComment]

theorem isJsonBlank_of_mem_lineStart {indent : Nat} {c : Char} (hc : c ∈ lineStart indent) :
    isJsonBlank c = true := by
  rcases List.mem_cons.1 hc with rfl | hc
  · rfl
  · rw [List.eq_of_mem_replicate hc]
    rfl

theorem space_nil : Style.plain.space [] = [] := rfl

theorem space_blanks (cs : List Char) (h : ∀ c ∈ cs, isJsonBlank c = true) :
    Style.plain.space [.blanks cs h] = cs :=
  List.append_nil cs

/-- The gap in front of a line. -/
def lineGap (indent : Nat) : Gap :=
  [.blanks (lineStart indent) fun _ => isJsonBlank_of_mem_lineStart]

theorem space_lineGap (indent : Nat) : Style.plain.space (lineGap indent) = lineStart indent :=
  space_blanks _ _

/-- Items that can be laid out one by one can be laid out together, up to the closing bracket on the
line behind them. -/
theorem exists_items {b : Bracket} {meaning : Nat → Label b → Layout → Option α} (indent : Nat)
    (text : α → List Char) {first : α} {others : List α}
    (h : ∀ a ∈ first :: others, ∃ (label : Label b) (d : Layout),
      label.write .plain ++ d.write .plain = text a ∧ ∀ i, meaning i label d = some a) (i : Nat) :
    ∃ items : Items b,
      items.write .plain = prettyLines (indent + 1) ((first :: others).map text) ++
        lineStart indent ++ [b.closing] ∧
      items.values? meaning i = some (first :: others) := by
  induction others generalizing first i with
  | nil =>
    obtain ⟨label, d, htext, hvalue⟩ := h first (List.mem_cons_self ..)
    refine ⟨.last (lineGap (indent + 1)) label d (lineGap indent) none, ?_, ?_⟩
    · simp [Items.write, space_lineGap, Style.ending, prettyLines, ← htext]
    · simp [Items.values?, hvalue]
  | cons next others ih =>
    obtain ⟨label, d, htext, hvalue⟩ := h first (List.mem_cons_self ..)
    obtain ⟨items, hitems, hvalues⟩ := ih (fun a ha => h a (List.mem_cons_of_mem _ ha)) (i + 1)
    refine ⟨.more (lineGap (indent + 1)) label d [] items, ?_, ?_⟩
    · rw [Items.write, hitems, space_lineGap, space_nil]
      simp [prettyLines, ← htext]
    · simp [Items.values?, hvalue, hvalues]

/-- There is a layout that is written like the value, at any indentation, and stands for it. -/
def IsLaidOut (checked : Bool) (depth : Nat) (v : Json) : Prop :=
  ∀ indent, ∃ d : Layout, d.write .plain = prettyChars indent v ∧ d.value? checked depth = some v

/-- An array is laid out when its items are, each on its line. -/
theorem isLaidOut_array {checked : Bool} {depth : Nat} {items : List Json}
    (h : ∀ v ∈ items, IsLaidOut checked depth v) :
    IsLaidOut checked (depth + 1) (.array items) := by
  intro indent
  cases items with
  | nil => exact ⟨.empty .square [], by rw [Layout.write, prettyChars]; rfl, rfl⟩
  | cons first others =>
    have hitems : ∀ v ∈ first :: others, ∃ (label : Label .square) (d : Layout),
        label.write .plain ++ d.write .plain = prettyChars (indent + 1) v ∧
          ∀ _ : Nat, d.value? checked depth = some v := by
      intro v hv
      obtain ⟨d, hwrite, hvalue⟩ := h v hv (indent + 1)
      exact ⟨.place, d, hwrite, fun _ => hvalue⟩
    obtain ⟨items, hwrite, hvalues⟩ := exists_items indent (prettyChars (indent + 1)) hitems 0
    refine ⟨.filled .square items, ?_, ?_⟩
    · rw [Layout.write, hwrite, prettyChars, prettyItems_eq]
      rfl
    · rw [Layout.value?, hvalues, Option.map_some]

/-- An object is laid out when its values are, each with its name on its line. -/
theorem isLaidOut_object {checked : Bool} {depth : Nat} {fields : List (String × Json)}
    (h : ∀ field ∈ fields, IsLaidOut checked depth field.2) :
    IsLaidOut checked (depth + 1) (.object fields) := by
  intro indent
  cases fields with
  | nil => exact ⟨.empty .curly [], by rw [Layout.write, prettyChars]; rfl, rfl⟩
  | cons first others =>
    have hfields : ∀ field ∈ first :: others, ∃ (label : Label .curly) (d : Layout),
        label.write .plain ++ d.write .plain = prettyField (indent + 1) field ∧
          ∀ _ : Nat, label.field? checked (fun _ => Layout.value? checked depth) d =
            some field := by
      intro field hfield
      obtain ⟨d, hwrite, hvalue⟩ := h field hfield (indent + 1)
      obtain ⟨parts, hparts, hname⟩ := exists_quote field.1
      refine ⟨.name parts [] [.blanks [' '] (List.all_eq_true.1 rfl)], d, ?_, fun _ => ?_⟩
      · rw [prettyField, ← hparts, ← hwrite, Label.write, space_nil, space_blanks]
        simp
      · simp [Label.field?, hname, hvalue]
    obtain ⟨items, hwrite, hvalues⟩ := exists_items indent (prettyField (indent + 1)) hfields 0
    refine ⟨.filled .curly items, ?_, ?_⟩
    · rw [Layout.write, hwrite, prettyChars, prettyFields_eq]
      rfl
    · rw [Layout.value?, hvalues, Option.map_some]

/-- The induction is on the value that is written. -/
theorem IsReadable.isLaidOut {checked : Bool} {depth : Nat} {v : Json}
    (h : IsReadable checked depth v) : IsLaidOut checked depth v := by
  induction h with
  | null =>
    intro _
    exact ⟨.scalar .null, by simp [Scalar.text, prettyChars, writeScalar], by simp [Scalar.value?]⟩
  | bool value =>
    intro _
    refine ⟨.scalar (.bool value), ?_, by simp [Scalar.value?]⟩
    cases value <;> simp [Scalar.text, prettyChars, writeScalar]
  | number literal hwritten hrange =>
    intro _
    refine ⟨.scalar (.number literal hwritten), ?_, ?_⟩
    · simp [Scalar.text, prettyChars, writeScalar]
    · cases checked <;> simp_all [Scalar.value?]
  | string s =>
    intro _
    obtain ⟨parts, hparts, hvalue⟩ := exists_quote s
    refine ⟨.scalar (.string parts), ?_, by simp [Scalar.value?, hvalue]⟩
    simp [Scalar.text, prettyChars, writeScalar, hparts]
  | array _ ih => exact isLaidOut_array ih
  | object _ ih => exact isLaidOut_object ih

/-- A readable value is read back from its text. -/
theorem IsReadable.complete_pretty {checked : Bool} {depth : Nat} {v : Json}
    (h : IsReadable checked depth v) :
    complete (readValue checked depth) (v.pretty ++ "\n") = some v := by
  obtain ⟨d, hwrite, hvalue⟩ := h.isLaidOut 0
  have hfeed : ∀ c ∈ ['\n'], isJsonBlank c = true := List.all_eq_true.1 rfl
  have hcomma : d.hasComma Style.plain.comma = false := d.hasComma_of_false fun _ => rfl
  have htext : v.pretty ++ "\n" =
      .ofList (Style.plain.space [] ++ (d.write .plain ++ ['\n'])) := by
    rw [hwrite, space_nil, pretty]
    simp
  rw [htext, (reads_readValue Style.isStrict_plain checked depth).complete_write [] d hfeed, hcomma,
    hvalue]
  rfl

/-- Values with one text are one value. -/
theorem IsReadable.eq_of_pretty_eq {checked : Bool} {depth : Nat} {v w : Json}
    (hv : IsReadable checked depth v) (hw : IsReadable checked depth w)
    (h : v.pretty ++ "\n" = w.pretty ++ "\n") : v = w := by
  have hread := hv.complete_pretty
  rw [h, hw.complete_pretty] at hread
  exact (Option.some.inj hread).symm

/-! ### Values made of the library's own types -/

theorem isReadable_ofNat {checked : Bool} {depth n : Nat} (h : checked = true → n ≤ maxCount) :
    IsReadable checked depth (ofNat n) := by
  rw [ofNat_eq]
  exact .number _ (isWritten_natLiteral n) fun hchecked => inRange_natLiteral (h hchecked)

theorem isReadable_ofStrings {checked : Bool} {depth : Nat} (items : List String) :
    IsReadable checked (depth + 1) (ofStrings items) := by
  refine .array fun v hv => ?_
  obtain ⟨s, -, rfl⟩ := List.mem_map.1 hv
  exact .string s

theorem ofStrings_injective {xs ys : List String} (h : ofStrings xs = ofStrings ys) : xs = ys :=
  List.map_injective_iff.2 (fun _ _ => Json.string.inj) (Json.array.inj h)

end DeadCode.Json
