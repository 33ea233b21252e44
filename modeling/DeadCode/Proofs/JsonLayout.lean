import DeadCode.Proofs.JsonToken

/-!
# DeadCode.Proofs.JsonLayout

JSON texts as they are laid out. A `Layout` is a value with everything that is written around its
tokens: blanks, comments, and commas behind last items. A `Style` says how much of that is written,
so that one layout is the source of a commented text, of the text without comments, and of what is
left when they are stripped off.

A layout that is written without comments is read back as the value it stands for (`value?`,
`wanted?`), unless a comma behind a last item is written: then it is refused. `Reads` says this of a
reader, and is shown of every reader in turn.
-/

namespace DeadCode.Json

/-! ### Gaps -/

/-- A comment up to the end of its line. It takes in blanks that were there before it, its `own`. -/
structure LineComment where
  text : List Char
  own : List Char
  not_mem_text : '\n' ∉ text
  blank_own : ∀ c ∈ own, isJsonBlank c = true ∧ c ≠ '\n'

namespace LineComment

def line (c : LineComment) : List Char := c.text ++ c.own

theorem not_mem_line (c : LineComment) : '\n' ∉ c.line := by
  rw [line, List.mem_append]
  rintro (h | h)
  · exact c.not_mem_text h
  · exact (c.blank_own _ h).2 rfl

end LineComment

/-- What can stand between two tokens. -/
inductive Filler where
  | blanks (cs : List Char) (h : ∀ c ∈ cs, isJsonBlank c = true)
  /-- The line feed was there before the comment unless it was `inserted` with it. -/
  | line (comment : LineComment) (inserted : Bool)
  /-- A comment between stars. -/
  | block (text : List Char) (h : ¬ ['*', '/'] <:+: text)

namespace Filler

def text : Filler → List Char
  | blanks cs _ => cs
  | line comment _ => '/' :: '/' :: (comment.line ++ ['\n'])
  | block text _ => '/' :: '*' :: (text ++ ['*', '/'])

def isComment : Filler → Bool
  | blanks .. => false
  | _ => true

/-- What was there before a comment was written. -/
def plain : Filler → Filler
  | blanks cs h => blanks cs h
  | line comment inserted =>
    blanks (comment.own ++ if inserted then [] else ['\n']) (by
      intro c hc
      rcases List.mem_append.1 hc with hc | hc
      · exact (comment.blank_own c hc).1
      · cases inserted <;> simp_all [isJsonBlank])
  | block _ _ => blanks [] (by simp)

/-- What is left when a comment is stripped off. -/
def stripped : Filler → Filler
  | blanks cs h => blanks cs h
  | line .. => blanks ['\n'] (by simp [isJsonBlank])
  | block _ _ => blanks [] (by simp)

end Filler

/-- All that stands between two tokens. -/
abbrev Gap := List Filler

namespace Gap

def text (g : Gap) : List Char := g.flatMap Filler.text

def hasComment (g : Gap) : Bool := g.any Filler.isComment

def plain (g : Gap) : Gap := g.map Filler.plain

def stripped (g : Gap) : Gap := g.map Filler.stripped

theorem hasComment_stripped (g : Gap) : g.stripped.hasComment = false := by
  simp only [hasComment, stripped, List.any_map, List.any_eq_false]
  intro f _
  cases f <;> simp [Filler.stripped, Filler.isComment]

theorem isJsonBlank_of_mem_text {g : Gap} (hg : g.hasComment = false) {c : Char}
    (hc : c ∈ g.text) : isJsonBlank c = true := by
  obtain ⟨f, hf, hc⟩ := List.mem_flatMap.1 hc
  have hcomment : ¬ f.isComment = true := List.any_eq_false.1 hg f hf
  cases f with
  | blanks cs h => exact h c hc
  | line => exact absurd rfl hcomment
  | block => exact absurd rfl hcomment

end Gap

/-! ### Layouts -/

/-- The brackets of arrays and of objects. -/
inductive Bracket where
  | square
  | curly

namespace Bracket

def opening : Bracket → Char
  | square => '['
  | curly => '\x7b'

def closing : Bracket → Char
  | square => ']'
  | curly => '\x7d'

end Bracket

/-- What an item has in front of its value: nothing in an array, the name and the colon in an
object. -/
inductive Label : Bracket → Type where
  | place : Label .square
  | name (parts : List StringPart) (before after : Gap) : Label .curly

mutual
/-- A value with everything that is written around its tokens. -/
inductive Layout where
  | scalar (token : Scalar)
  | empty (b : Bracket) (inside : Gap)
  | filled (b : Bracket) (items : Items b)

/-- The items of an array or object up to its closing bracket. A comma behind the last item has a
gap behind it. -/
inductive Items : Bracket → Type where
  | last (before : Gap) (label : Label b) (value : Layout) (after : Gap) (comma : Option Gap) :
    Items b
  | more (before : Gap) (label : Label b) (value : Layout) (after : Gap) (rest : Items b) : Items b
end

/-- How layouts are written: what takes the place of a gap, and which commas behind last items are
written, by the gap behind them. -/
structure Style where
  gap : Gap → Gap
  comma : Gap → Bool

namespace Style

/-- Everything is written. -/
def decorated : Style := ⟨id, fun _ => true⟩

/-- Comments and the commas behind last items are left out. -/
def plain : Style := ⟨Gap.plain, fun _ => false⟩

/-- What is left of a style when comments are stripped off: a comma behind a last item stays where a
comment hides the bracket. -/
def stripped (s : Style) : Style :=
  ⟨fun g => (s.gap g).stripped, fun g => s.comma g && (s.gap g).hasComment⟩

/-- The text of a gap. -/
def space (s : Style) (g : Gap) : List Char := (s.gap g).text

/-- The text between the last item and its closing bracket. -/
def ending (s : Style) : Option Gap → List Char
  | none => []
  | some g => (if s.comma g then [','] else []) ++ s.space g

/-- No comments are written. -/
def IsStrict (s : Style) : Prop := ∀ g, (s.gap g).hasComment = false

/-- What is left after stripping has no comments in its gaps. -/
theorem isStrict_stripped (s : Style) : s.stripped.IsStrict := fun g =>
  (s.gap g).hasComment_stripped

end Style

def Label.write (s : Style) : Label b → List Char
  | .place => []
  | .name parts before after => '"' :: (partsText parts ++ (s.space before ++ ':' :: s.space after))

mutual
def Layout.write (s : Style) : Layout → List Char
  | .scalar token => token.text
  | .empty b inside => b.opening :: (s.space inside ++ [b.closing])
  | .filled b items => b.opening :: items.write s

def Items.write (s : Style) : Items b → List Char
  | .last before label value after comma =>
    s.space before ++ (label.write s ++ (value.write s ++ (s.space after ++
      (s.ending comma ++ [b.closing]))))
  | .more before label value after rest =>
    s.space before ++ (label.write s ++ (value.write s ++ (s.space after ++ ',' :: rest.write s)))
end

mutual
/-- Whether a comma stands behind a last item and before a gap with `p`. -/
def Layout.hasComma (p : Gap → Bool) : Layout → Bool
  | .scalar _ => false
  | .empty _ _ => false
  | .filled _ items => items.hasComma p

/-- Whether a comma stands behind a last item and before a gap with `p`, here or in a value. -/
def Items.hasComma (p : Gap → Bool) : Items b → Bool
  | .last _ _ value _ comma => value.hasComma p || comma.any p
  | .more _ _ value _ rest => value.hasComma p || rest.hasComma p
end

mutual
theorem Layout.hasComma_of_false {p : Gap → Bool} (hp : ∀ g, p g = false) :
    ∀ d : Layout, d.hasComma p = false
  | .scalar _ => by rw [Layout.hasComma]
  | .empty _ _ => by rw [Layout.hasComma]
  | .filled _ items => by rw [Layout.hasComma, Items.hasComma_of_false hp items]

theorem Items.hasComma_of_false {p : Gap → Bool} (hp : ∀ g, p g = false) :
    ∀ items : Items b, items.hasComma p = false
  | .last _ _ value _ comma => by
    rw [Items.hasComma, Layout.hasComma_of_false hp value]
    cases comma <;> simp [hp]
  | .more _ _ value _ rest => by
    rw [Items.hasComma, Layout.hasComma_of_false hp value, Items.hasComma_of_false hp rest]
    rfl
end

/-! ### Values -/

/-- What the items stand for one by one, by their places from `i` on. -/
def Items.values? (meaning : Nat → Label b → Layout → Option α) (i : Nat) :
    Items b → Option (List α)
  | .last _ label value _ _ => (meaning i label value).map ([·])
  | .more _ label value _ rest =>
    (meaning i label value).bind fun a => (rest.values? meaning (i + 1)).map (a :: ·)

/-- A field whose value stands for what `meaning` says of its name. -/
def Label.field? (checked : Bool) (meaning : String → Layout → Option α) :
    Label .curly → Layout → Option (String × α)
  | .name parts _ _, value =>
    (charsOf? checked parts).bind fun name => (meaning (.ofList name) value).map (.ofList name, ·)

/-- The value that a layout stands for, if arrays and objects are nested at most `depth` deep. -/
def Layout.value? (checked : Bool) : Nat → Layout → Option Json
  | _, .scalar token => token.value? checked
  | 0, _ => none
  | _ + 1, .empty .square _ => some (.array [])
  | _ + 1, .empty .curly _ => some (.object [])
  | depth + 1, .filled .square items =>
    (items.values? (fun _ _ => value? checked depth) 0).map .array
  | depth + 1, .filled .curly items =>
    (items.values? (fun _ label => label.field? checked fun _ => value? checked depth) 0).map
      .object

/-- The record of the fields that were kept. -/
def recordOf (fields : List (String × Option Json)) : Json :=
  .object (fields.filterMap fun field => field.2.map (field.1, ·))

/-- The parts in `shape` of the value that a layout stands for. -/
def Layout.wanted? : Nat → Shape → Layout → Option Json
  | depth + 1, .record fields, .filled .curly items =>
    (items.values? (fun _ label => label.field? true fun name value =>
      match fields.lookup name with
      | some shape => (wanted? depth shape value).map some
      | none => some none) 0).map recordOf
  | depth + 1, .record fields, .filled .square items =>
    (items.values? (fun i _ value =>
      match fields[i]? with
      | some field => wanted? depth field.2 value
      | none => value.value? true depth) 0).map .array
  | depth, _, d => d.value? true depth

/-! ### The first character -/

/-- Whether a value can start with the character. -/
def startsValue (c : Char) : Bool := Scalar.starts c || c == '[' || c == '\x7b'

theorem isJsonBlank_of_startsValue {c : Char} (h : startsValue c = true) :
    isJsonBlank c = false := by
  rw [Bool.eq_false_iff]
  intro hblank
  simp only [isJsonBlank, Bool.or_eq_true, beq_iff_eq] at hblank
  rcases hblank with ((rfl | rfl) | rfl) | rfl <;> exact absurd h (by decide)

theorem startsValue_closing (b : Bracket) : startsValue b.closing = false := by
  cases b <;> decide

/-- A layout starts with a character that starts a value, so no blank and no closing bracket. -/
theorem Layout.exists_cons_write (s : Style) (d : Layout) :
    ∃ c cs, d.write s = c :: cs ∧ startsValue c = true := by
  cases d with
  | scalar token =>
    obtain ⟨c, cs, htext, hc⟩ := token.exists_cons_text
    exact ⟨c, cs, by rw [write, htext], by simp [startsValue, hc]⟩
  | empty b inside => exact ⟨_, _, by rw [write], by cases b <;> decide⟩
  | filled b items => exact ⟨_, _, by rw [write], by cases b <;> decide⟩

/-- An item starts like a value: names are strings. -/
theorem Label.exists_cons_write (s : Style) (label : Label b) (d : Layout) (rest : List Char) :
    ∃ c cs, label.write s ++ (d.write s ++ rest) = c :: cs ∧ startsValue c = true := by
  cases label with
  | place =>
    obtain ⟨c, cs, hwrite, hc⟩ := d.exists_cons_write s
    exact ⟨c, cs ++ rest, by simp [write, hwrite], hc⟩
  | name parts before after => exact ⟨'"', _, rfl, by decide⟩

theorem Items.exists_write (s : Style) (items : Items b) :
    ∃ g c cs, items.write s = s.space g ++ c :: cs ∧ startsValue c = true := by
  cases items with
  | last before label value after comma =>
    obtain ⟨c, cs, hwrite, hc⟩ := label.exists_cons_write s value _
    exact ⟨before, c, cs, by rw [write, hwrite], hc⟩
  | more before label value after rest =>
    obtain ⟨c, cs, hwrite, hc⟩ := label.exists_cons_write s value _
    exact ⟨before, c, cs, by rw [write, hwrite], hc⟩

/-! ### Blanks -/

theorem continuesNumber_of_isJsonBlank {c : Char} (hc : isJsonBlank c = true) :
    continuesNumber c = false := by
  simp only [isJsonBlank, Bool.or_eq_true, beq_iff_eq] at hc
  rcases hc with ((rfl | rfl) | rfl) | rfl <;> decide

section Strict

variable {s : Style} (hs : s.IsStrict)
include hs

theorem skipBlanks_space_append (g : Gap) (rest : List Char) :
    skipBlanks (s.space g ++ rest) = skipBlanks rest :=
  List.dropWhile_append_of_pos fun _ => Gap.isJsonBlank_of_mem_text (hs g)

/-- The blanks of a gap are passed over up to the token behind it. -/
theorem skipBlanks_space (g : Gap) {rest : List Char}
    (hrest : ∀ c ∈ rest.head?, isJsonBlank c = false) :
    skipBlanks (s.space g ++ rest) = rest := by
  rw [skipBlanks_space_append hs]
  cases rest with
  | nil => rfl
  | cons c rest => simp [skipBlanks, hrest c rfl]

theorem skipBlanks_closing (g : Gap) (b : Bracket) (rest : List Char) :
    skipBlanks (s.space g ++ b.closing :: rest) = b.closing :: rest :=
  skipBlanks_space hs g (by cases b <;> simp [Bracket.closing, isJsonBlank])

theorem skipBlanks_write (g : Gap) (d : Layout) (rest : List Char) :
    skipBlanks (s.space g ++ (d.write s ++ rest)) = d.write s ++ rest := by
  obtain ⟨c, cs, hwrite, hc⟩ := d.exists_cons_write s
  refine skipBlanks_space hs g ?_
  rw [hwrite]
  rintro _ ⟨⟩
  exact isJsonBlank_of_startsValue hc

/-- A token ends before a gap, as it ends before what follows the gap. -/
theorem EndsToken.space_append (g : Gap) {rest : List Char} (hrest : EndsToken rest) :
    EndsToken (s.space g ++ rest) := by
  intro c hc
  rw [List.head?_append] at hc
  cases hhead : (s.space g).head? with
  | none => exact hrest c (by simpa [hhead] using hc)
  | some d =>
    obtain rfl : d = c := by simpa [hhead] using hc
    exact continuesNumber_of_isJsonBlank <|
      Gap.isJsonBlank_of_mem_text (hs g) (List.mem_of_mem_head? hhead)

end Strict

theorem endsToken_comma (rest : List Char) : EndsToken (',' :: rest) := by
  rintro c ⟨⟩
  decide

theorem endsToken_closing (b : Bracket) (rest : List Char) : EndsToken (b.closing :: rest) := by
  rintro c ⟨⟩
  cases b <;> decide

/-! ### Sequences -/

/-- `r` reads each layout as `meaning` says. It refuses those that have a comma behind a last item,
and a closing bracket in the place of a value. -/
structure Reads (s : Style) (r : Reader α) (meaning : Layout → Option α) : Prop where
  layout (g : Gap) (d : Layout) {rest : List Char} : EndsToken rest →
    r (s.space g ++ (d.write s ++ rest)) =
      if d.hasComma s.comma then none else (meaning d).map (·, rest)
  closing (g : Gap) (b : Bracket) (rest : List Char) : r (s.space g ++ b.closing :: rest) = none

/-- `item` reads the items between brackets `b` as `meaning` says. -/
structure ReadsItems (s : Style) (b : Bracket) (item : Nat → Reader α)
    (meaning : Nat → Label b → Layout → Option α) : Prop where
  layout (i : Nat) (g : Gap) (label : Label b) (d : Layout) {rest : List Char} : EndsToken rest →
    item i (s.space g ++ (label.write s ++ (d.write s ++ rest))) =
      if d.hasComma s.comma then none else (meaning i label d).map (·, rest)
  closing (i : Nat) (g : Gap) (rest : List Char) : item i (s.space g ++ b.closing :: rest) = none

/-- A reader that goes on with what it has read reads the same layouts. -/
theorem Reads.map {s : Style} {r : Reader α} {meaning : Layout → Option α}
    (h : Reads s r meaning) (f : α → β) :
    Reads s (fun cs => (r cs).map fun p => (f p.1, p.2)) fun d => (meaning d).map f := by
  refine ⟨fun g d rest hrest => ?_, fun g b rest => ?_⟩
  · rw [h.layout g d hrest]
    by_cases hcomma : d.hasComma s.comma = true <;> simp [hcomma, Function.comp_def]
  · rw [h.closing]
    rfl

/-- A layout that is the whole text but for blanks. -/
theorem Reads.complete_write {s : Style} {r : Reader α} {meaning : Layout → Option α}
    (h : Reads s r meaning) (before : Gap) (d : Layout) {rest : List Char}
    (hrest : ∀ c ∈ rest, isJsonBlank c = true) :
    complete r (.ofList (s.space before ++ (d.write s ++ rest))) =
      if d.hasComma s.comma then none else meaning d := by
  have hends : EndsToken rest := fun c hc =>
    continuesNumber_of_isJsonBlank (hrest c (List.mem_of_mem_head? hc))
  have hskip : skipBlanks rest = [] := List.dropWhile_eq_nil_iff.2 hrest
  rw [complete, String.toList_ofList, h.layout before d hends]
  by_cases hcomma : d.hasComma s.comma = true
  · simp [hcomma]
  · cases hmeaning : meaning d <;> simp [hcomma, hskip]

/-- The items of an array are values. -/
theorem ReadsItems.square {s : Style} {item : Nat → Reader α} {meaning : Nat → Layout → Option α}
    (h : ∀ i, Reads s (item i) (meaning i)) :
    ReadsItems s .square item fun i _ => meaning i where
  layout i g label d rest hrest := by
    cases label
    exact (h i).layout g d hrest
  closing i g rest := (h i).closing g .square rest

section Items

variable {s : Style} {b : Bracket} {item : Nat → Reader α}
  {meaning : Nat → Label b → Layout → Option α} (h : ReadsItems s b item meaning)
include h

/-- One item is read, and what stands behind it decides whether the list goes on. -/
theorem readItems_item (g : Gap) (label : Label b) (d : Layout) {rest : List Char}
    (hrest : EndsToken rest) (fuel i : Nat) :
    readItems b.closing item (fuel + 1) i (s.space g ++ (label.write s ++ (d.write s ++ rest))) =
      if d.hasComma s.comma then none
      else (meaning i label d).bind fun a =>
        match skipBlanks rest with
        | ',' :: rest =>
          (readItems b.closing item fuel (i + 1) rest).map fun p => (a :: p.1, p.2)
        | c :: rest => if c = b.closing then some ([a], rest) else none
        | [] => none := by
  rw [readItems, h.layout i g label d hrest]
  by_cases hcomma : d.hasComma s.comma = true
  · rw [if_pos hcomma, if_pos hcomma]
  · rw [if_neg hcomma, if_neg hcomma]
    cases meaning i label d <;> rfl

/-- An item before a closing bracket is the last one. -/
theorem readItems_closing (g : Gap) (label : Label b) (d : Layout) {rest rest' : List Char}
    (hrest : EndsToken rest) (hskip : skipBlanks rest = b.closing :: rest') (fuel i : Nat) :
    readItems b.closing item (fuel + 1) i (s.space g ++ (label.write s ++ (d.write s ++ rest))) =
      if d.hasComma s.comma then none else (meaning i label d).map ([·], rest') := by
  rw [readItems_item h g label d hrest, hskip, Option.map_eq_bind]
  cases b <;> rfl

/-- An item before a comma is followed by more of them. -/
theorem readItems_comma (g : Gap) (label : Label b) (d : Layout) {rest rest' : List Char}
    (hrest : EndsToken rest) (hskip : skipBlanks rest = ',' :: rest') (fuel i : Nat) :
    readItems b.closing item (fuel + 1) i (s.space g ++ (label.write s ++ (d.write s ++ rest))) =
      if d.hasComma s.comma then none
      else (meaning i label d).bind fun a =>
        (readItems b.closing item fuel (i + 1) rest').map fun p => (a :: p.1, p.2) := by
  rw [readItems_item h g label d hrest, hskip]
  rfl

/-- A comma behind the last item asks for one more. -/
theorem readItems_nothing (g : Gap) (fuel i : Nat)
    (rest : List Char) :
    readItems b.closing item fuel i (s.space g ++ b.closing :: rest) = none := by
  cases fuel with
  | zero => rfl
  | succ fuel => rw [readItems, h.closing i g rest]

end Items

@[simp] theorem Layout.write_scalar (s : Style) (token : Scalar) :
    (Layout.scalar token).write s = token.text := by
  rw [write]

@[simp] theorem Layout.hasComma_scalar (p : Gap → Bool) (token : Scalar) :
    (Layout.scalar token).hasComma p = false := by
  rw [hasComma]

@[simp] theorem Layout.value?_scalar (checked : Bool) (depth : Nat) (token : Scalar) :
    (Layout.scalar token).value? checked depth = token.value? checked := by
  cases depth <;> rfl

theorem starts_opening (b : Bracket) : Scalar.starts b.opening = false := by
  cases b <;> decide

theorem starts_closing (b : Bracket) : Scalar.starts b.closing = false := by
  cases b <;> decide

/-- The value at the start of the text is not in brackets. -/
def StartsBare (cs : List Char) : Prop := ∀ c ∈ (skipBlanks cs).head?, c ≠ '[' ∧ c ≠ '\x7b'

/-- Where no bracket opens, a value is a scalar. -/
theorem readValue_of_startsBare (checked : Bool) (depth : Nat) {cs : List Char}
    (h : StartsBare cs) : readValue checked depth cs = readScalar checked (skipBlanks cs) := by
  cases depth with
  | zero => rw [readValue]
  | succ depth =>
    rw [readValue]
    split <;> simp_all [StartsBare]

/-- Outside brackets it does not matter what is wanted. -/
theorem readShape_of_startsBare (shape : Shape) (depth : Nat) {cs : List Char}
    (h : StartsBare cs) : readShape shape depth cs = readValue true depth cs := by
  cases shape with
  | any => rfl
  | record fields =>
    cases depth with
    | zero => rfl
    | succ depth =>
      rw [readValue_of_startsBare true _ h, readShape]
      split <;> simp_all [StartsBare]

/-- Items stand for something if every value does that is shorter than their text. -/
theorem Items.isSome_values? (s : Style) {meaning : Nat → Label b → Layout → Option α} {n : Nat}
    (h : ∀ i label value, (value.write s).length ≤ n → (meaning i label value).isSome = true) :
    ∀ (items : Items b) (i : Nat), (items.write s).length ≤ n →
      (items.values? meaning i).isSome = true
  | .last before label value after comma, i, hn => by
    simp only [write, List.length_append] at hn
    simpa [values?] using h i label value (by omega)
  | .more before label value after rest, i, hn => by
    simp only [write, List.length_append, List.length_cons] at hn
    obtain ⟨a, ha⟩ := Option.isSome_iff_exists.1 (h i label value (by omega))
    simpa [values?, ha] using isSome_values? s h rest (i + 1) (by omega)

theorem Label.isSome_field? {meaning : String → Layout → Option α} (label : Label .curly)
    {value : Layout} (h : ∀ name, (meaning name value).isSome = true) :
    (label.field? false meaning value).isSome = true := by
  obtain _ | ⟨parts, before, after⟩ := label
  obtain ⟨name, hname⟩ := Option.isSome_iff_exists.1 (isSome_charsOf?_false parts)
  simpa [field?, hname] using h _

/-- Unchecked, every layout stands for a value: arrays and objects are not nested deeper than their
text is long. -/
theorem Layout.isSome_value? (s : Style) (d : Layout) (depth : Nat)
    (h : (d.write s).length ≤ depth) : (d.value? false depth).isSome = true := by
  induction depth generalizing d with
  | zero =>
    obtain ⟨c, cs, hwrite, -⟩ := d.exists_cons_write s
    simp [hwrite] at h
  | succ depth ih =>
    cases d with
    | scalar token => simpa using token.isSome_value?_false
    | empty b inside => cases b <;> rfl
    | filled b items =>
      simp only [write, List.length_cons, Nat.add_le_add_iff_right] at h
      cases b with
      | square =>
        simpa [value?] using items.isSome_values? s (fun _ _ value => ih value) 0 h
      | curly =>
        simpa [value?] using items.isSome_values? s
          (fun _ label value hvalue => label.isSome_field? fun _ => ih value hvalue) 0 h

section Strict

variable {s : Style} (hs : s.IsStrict)
include hs

/-- The name of a field is read with the colon and the gap behind it. -/
theorem readName_write (checked : Bool) (g : Gap) (parts : List StringPart) (before after : Gap)
    (rest : List Char) :
    readName checked (s.space g ++ ((Label.name parts before after).write s ++ rest)) =
      (charsOf? checked parts).map fun name => (.ofList name, s.space after ++ rest) := by
  have hquote : skipBlanks (s.space g ++ ((Label.name parts before after).write s ++ rest)) =
      '"' :: (partsText parts ++ (s.space before ++ ':' :: (s.space after ++ rest))) := by
    rw [skipBlanks_space hs g (by rintro _ ⟨⟩; decide)]
    simp [Label.write]
  have hcolon : skipBlanks (s.space before ++ ':' :: (s.space after ++ rest)) =
      ':' :: (s.space after ++ rest) :=
    skipBlanks_space hs before (by rintro _ ⟨⟩; decide)
  rw [readName, hquote]
  simp only [readChars_partsText]
  cases charsOf? checked parts with
  | none => rfl
  | some name => simp [hcolon]

/-- The items of an object are fields. -/
theorem ReadsItems.curly (checked : Bool) {value : String → Reader α}
    {meaning : String → Layout → Option α} (h : ∀ name, Reads s (value name) (meaning name)) :
    ReadsItems s .curly (fun _ => readField checked value) fun _ label =>
      label.field? checked meaning where
  layout i g label d rest hrest := by
    obtain _ | ⟨parts, before, after⟩ := label
    rw [readField, readName_write hs]
    simp only [Label.field?]
    cases charsOf? checked parts with
    | none => simp
    | some name =>
      simp only [Option.map_some, Option.bind_eq_bind, Option.bind_some,
        (h (.ofList name)).layout after d hrest]
      cases d.hasComma s.comma <;> cases meaning (.ofList name) d <;> simp
  closing i g rest := by
    rw [readField, readName, skipBlanks_closing hs]
    rfl

/-- What stands behind the last item ends its value. -/
theorem endsToken_ending (b : Bracket) (after : Gap) (comma : Option Gap) (rest : List Char) :
    EndsToken (s.space after ++ (s.ending comma ++ b.closing :: rest)) := by
  refine .space_append hs after ?_
  cases comma with
  | none => exact endsToken_closing b rest
  | some g =>
    rw [Style.ending]
    cases s.comma g with
    | false => exact .space_append hs g (endsToken_closing b rest)
    | true => exact endsToken_comma _

/-- The items in brackets are read in turn. The induction is on the items; the fuel is the length of
the text, which every item shortens. -/
theorem readItems_write {item : Nat → Reader α} {meaning : Nat → Label b → Layout → Option α}
    (h : ReadsItems s b item meaning) :
    ∀ (items : Items b) (fuel i : Nat) (rest : List Char), (items.write s).length ≤ fuel →
      readItems b.closing item fuel i (items.write s ++ rest) =
        if items.hasComma s.comma then none else (items.values? meaning i).map (·, rest)
  | .last before label value after comma, fuel, i, rest, hfuel => by
    simp only [Items.write, List.length_append, List.length_cons] at hfuel
    -- the text is not empty, so there is fuel for this item
    obtain ⟨fuel, rfl⟩ : ∃ n, fuel = n + 1 := Nat.exists_eq_add_one.2 (by omega)
    have hends := endsToken_ending hs b after comma rest
    simp only [Items.write, Items.hasComma, Items.values?, List.append_assoc,
      List.singleton_append]
    cases comma with
    | none =>
      rw [readItems_closing h before label value hends (skipBlanks_closing hs after b rest)]
      simp [Option.map_map, Function.comp_def]
    | some g =>
      cases hcomma : s.comma g with
      | true =>
        -- the comma asks for an item where only the bracket is
        have hskip : skipBlanks (s.space after ++ (s.ending (some g) ++ b.closing :: rest)) =
            ',' :: (s.space g ++ b.closing :: rest) := by
          rw [skipBlanks_space hs after] <;> simp [Style.ending, hcomma, isJsonBlank]
        -- behind the comma the rest of the items is read with less fuel
        rw [readItems_comma h before label value hends hskip, readItems_nothing h]
        simp [hcomma]
      -- a last comma that the style leaves out
      | false =>
        have hskip : skipBlanks (s.space after ++ (s.ending (some g) ++ b.closing :: rest)) =
            b.closing :: rest := by
          simp [Style.ending, hcomma, skipBlanks_space_append hs after, skipBlanks_closing hs]
        rw [readItems_closing h before label value hends hskip]
        simp [hcomma, Option.map_map, Function.comp_def]
  | .more before label value after items, fuel, i, rest, hfuel => by
    simp only [Items.write, List.length_append, List.length_cons] at hfuel
    obtain ⟨fuel, rfl⟩ : ∃ n, fuel = n + 1 := Nat.exists_eq_add_one.2 (by omega)
    have hends : EndsToken (s.space after ++ ',' :: (items.write s ++ rest)) :=
      .space_append hs after (endsToken_comma _)
    have hskip : skipBlanks (s.space after ++ ',' :: (items.write s ++ rest)) =
        ',' :: (items.write s ++ rest) :=
      skipBlanks_space hs after (by rintro _ ⟨⟩; decide)
    simp only [Items.write, Items.hasComma, Items.values?, List.append_assoc, List.cons_append]
    rw [readItems_comma h before label value hends hskip,
      readItems_write h items fuel (i + 1) rest (by omega)]
    by_cases hvalue : value.hasComma s.comma = true
    · simp [hvalue]
    · by_cases hitems : items.hasComma s.comma = true <;>
        simp [hvalue, hitems, Option.map_bind, Function.comp_def]

/-- An empty sequence in a layout, wrapped by `f`. -/
theorem readSequence_empty (item : Nat → Reader α) (f : List α → Json) (b : Bracket) (inside : Gap)
    (rest : List Char) :
    ((readSequence b.closing item (s.space inside ++ [b.closing] ++ rest)).map fun p =>
      (f p.1, p.2)) = some (f [], rest) := by
  rw [List.append_assoc, List.singleton_append, readSequence, skipBlanks_closing hs]
  simp

/-- A sequence with items in a layout, wrapped by `f`. -/
theorem readSequence_filled {item : Nat → Reader α} {meaning : Nat → Label b → Layout → Option α}
    (h : ReadsItems s b item meaning) (f : List α → Json) (items : Items b) (rest : List Char) :
    ((readSequence b.closing item (items.write s ++ rest)).map fun p => (f p.1, p.2)) =
      if items.hasComma s.comma then none
      else ((items.values? meaning 0).map f).map (·, rest) := by
  obtain ⟨g, c, cs, hwrite, hc⟩ := items.exists_write s
  have hskip : skipBlanks (items.write s ++ rest) = c :: (cs ++ rest) := by
    rw [hwrite, List.append_assoc]
    refine skipBlanks_space hs g ?_
    rintro _ ⟨⟩
    exact isJsonBlank_of_startsValue hc
  have hne : c ≠ b.closing := by
    rintro rfl
    exact absurd hc (by simp [startsValue_closing])
  rw [readSequence, hskip]
  simp only [hne, if_false]
  rw [readItems_write hs h items _ 0 rest (by simp)]
  by_cases hcomma : items.hasComma s.comma = true <;> simp [hcomma, Function.comp_def]

/-! ### Readers -/

theorem startsBare_scalar (g : Gap) (token : Scalar) (rest : List Char) :
    StartsBare (s.space g ++ (token.text ++ rest)) := by
  have hskip : skipBlanks (s.space g ++ (token.text ++ rest)) = token.text ++ rest :=
    skipBlanks_write hs g (.scalar token) rest
  obtain ⟨c, cs, htext, hc⟩ := token.exists_cons_text
  rw [StartsBare, hskip, htext]
  rintro _ ⟨⟩
  exact ⟨by rintro rfl; exact absurd hc (by decide), by rintro rfl; exact absurd hc (by decide)⟩

theorem startsBare_closing (g : Gap) (b : Bracket) (rest : List Char) :
    StartsBare (s.space g ++ b.closing :: rest) := by
  rw [StartsBare, skipBlanks_closing hs]
  rintro _ ⟨⟩
  cases b <;> decide

/-- A scalar is read as such, however deep it may be. -/
theorem readValue_scalar (checked : Bool) (depth : Nat) (g : Gap) (token : Scalar)
    {rest : List Char} (hrest : EndsToken rest) :
    readValue checked depth (s.space g ++ (token.text ++ rest)) =
      (token.value? checked).map (·, rest) := by
  have hskip : skipBlanks (s.space g ++ (token.text ++ rest)) = token.text ++ rest :=
    skipBlanks_write hs g (.scalar token) rest
  rw [readValue_of_startsBare checked depth (startsBare_scalar hs g token rest), hskip,
    token.readScalar_text checked hrest]

theorem readValue_closing (checked : Bool) (depth : Nat) (g : Gap) (b : Bracket)
    (rest : List Char) : readValue checked depth (s.space g ++ b.closing :: rest) = none := by
  rw [readValue_of_startsBare checked depth (startsBare_closing hs g b rest),
    skipBlanks_closing hs, Scalar.readScalar_of_not_starts checked (starts_closing b)]

/-- Values are read from their layouts. The induction is on the depth to which they may be nested. -/
theorem reads_readValue (checked : Bool) (depth : Nat) :
    Reads s (readValue checked depth) (Layout.value? checked depth) := by
  induction depth with
  -- no bracket may open any more, and a bracket starts no scalar
  | zero =>
    refine ⟨fun g d rest hrest => ?_, readValue_closing hs checked 0⟩
    cases d with
    | scalar token => simpa using readValue_scalar hs checked 0 g token hrest
    | empty b inside =>
      rw [readValue, skipBlanks_write hs]
      simp [Layout.write, Layout.value?, Scalar.readScalar_of_not_starts, starts_opening]
    | filled b items =>
      rw [readValue, skipBlanks_write hs]
      simp [Layout.write, Layout.value?, Scalar.readScalar_of_not_starts, starts_opening]
  | succ depth ih =>
    refine ⟨fun g d rest hrest => ?_, readValue_closing hs checked (depth + 1)⟩
    cases d with
    | scalar token => simpa using readValue_scalar hs checked (depth + 1) g token hrest
    | empty b inside =>
      rw [readValue, skipBlanks_write hs, Layout.write, Layout.hasComma]
      cases b with
      | square => exact readSequence_empty hs _ .array .square inside rest
      | curly => exact readSequence_empty hs _ .object .curly inside rest
    | filled b items =>
      rw [readValue, skipBlanks_write hs, Layout.write, Layout.hasComma]
      cases b with
      | square => exact readSequence_filled hs (.square fun _ => ih) .array items rest
      | curly => exact readSequence_filled hs (.curly hs checked fun _ => ih) .object items rest

/-- Whatever has the form of a value can be passed over. -/
theorem reads_passValue : Reads s passValue fun _ => some () := by
  refine ⟨fun g d rest hrest => ?_, fun g b rest => ?_⟩
  · -- the limit is the length of a text that holds the layout
    have hvalue := d.isSome_value? s (s.space g ++ (d.write s ++ rest)).length (by simp; omega)
    obtain ⟨v, hv⟩ := Option.isSome_iff_exists.1 hvalue
    rw [passValue, (reads_readValue hs false _).layout g d hrest, hv]
    by_cases hcomma : d.hasComma s.comma = true <;> simp [hcomma]
  · rw [passValue, readValue_closing hs]
    rfl

/-- The wanted fields of a record are found by their names. -/
theorem reads_readWanted {depth : Nat}
    (h : ∀ shape, Reads s (readShape shape depth) (Layout.wanted? depth shape)) (name : String)
    (fields : List (String × Shape)) :
    Reads s (readShape.readWanted fields name depth) fun d =>
      match fields.lookup name with
      | some shape => (d.wanted? depth shape).map some
      | none => some none := by
  induction fields with
  | nil =>
    have hpass := (reads_passValue hs).map fun _ => (none : Option Json)
    simpa [readShape.readWanted] using hpass
  | cons field fields ih =>
    obtain ⟨wanted, shape⟩ := field
    by_cases hname : wanted = name
    · have hshape := (h shape).map some
      simpa [readShape.readWanted, hname] using hshape
    · have hlookup : ((wanted, shape) :: fields).lookup name = fields.lookup name := by
        rw [List.lookup_cons, beq_false_of_ne (Ne.symm hname)]
      simpa [readShape.readWanted, hname, hlookup] using ih

/-- The fields of a record that is written as an array are found by their places. -/
theorem reads_readPlace {depth : Nat}
    (h : ∀ shape, Reads s (readShape shape depth) (Layout.wanted? depth shape))
    (fields : List (String × Shape)) (i : Nat) :
    Reads s (readShape.readPlace fields i depth) fun d =>
      match fields[i]? with
      | some field => d.wanted? depth field.2
      | none => d.value? true depth := by
  induction fields generalizing i with
  | nil => simpa [readShape.readPlace] using reads_readValue hs true depth
  | cons field fields ih =>
    cases i with
    | zero => simpa [readShape.readPlace] using h field.2
    | succ i => simpa [readShape.readPlace] using ih i

/-- The wanted parts of a value are read from its layout. The induction is on the depth, and the
shape says for each value what is wanted of it. -/
theorem reads_readShape (depth : Nat) (shape : Shape) :
    Reads s (readShape shape depth) (Layout.wanted? depth shape) := by
  -- only a record inside the limit is read otherwise than any value
  have hvalue := reads_readValue hs true
  induction depth generalizing shape with
  | zero => cases shape <;> exact hvalue 0
  | succ depth ih =>
    cases shape with
    | any => exact hvalue (depth + 1)
    | record fields =>
      refine ⟨fun g d rest hrest => ?_, fun g b rest => ?_⟩
      · cases d with
        | scalar token =>
          rw [Layout.write_scalar, readShape_of_startsBare _ _ (startsBare_scalar hs g token rest)]
          exact (hvalue (depth + 1)).layout g (.scalar token) hrest
        | empty b inside =>
          rw [readShape, skipBlanks_write hs, Layout.write, Layout.hasComma]
          cases b with
          | square => exact readSequence_empty hs _ .array .square inside rest
          | curly => exact readSequence_empty hs _ recordOf .curly inside rest
        | filled b items =>
          rw [readShape, skipBlanks_write hs, Layout.write, Layout.hasComma]
          cases b with
          | square =>
            have hitems := ReadsItems.square (reads_readPlace hs ih fields)
            exact readSequence_filled hs hitems .array items rest
          | curly =>
            have hitems := ReadsItems.curly hs true fun name => reads_readWanted hs ih name fields
            exact readSequence_filled hs hitems recordOf items rest
      · rw [readShape_of_startsBare _ _ (startsBare_closing hs g b rest), readValue_closing hs]

end Strict

end DeadCode.Json
