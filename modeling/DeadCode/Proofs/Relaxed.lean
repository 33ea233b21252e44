import DeadCode.Manifest.CompilerConfig
import DeadCode.Proofs.JsonLayout

/-!
# DeadCode.Proofs.Relaxed

What is left of a relaxed JSON text when it is stripped. Each kind of piece has its own step: plain
characters, strings, the two kinds of comment, and commas. Put together they say that stripping a
layout gives the layout in the stripped style (`Layout.stripFrom_write`), in which the only commas
behind last items are those that a comment divides from the bracket.

A configuration is therefore read from a decorated text as from the plain one, except where a
comment hides the bracket from such a comma: then nothing is read.
-/

namespace DeadCode.Json

open Text

/-! ### Pieces of a relaxed text -/

/-- Whether a character stands for itself wherever it stands outside strings and comments. -/
def isInert (c : Char) : Bool := c != '"' && c != '/' && c != ','

theorem stripFrom_inert {c : Char} (hc : isInert c = true) (cs : List Char) :
    stripFrom .plain (c :: cs) = c :: stripFrom .plain cs := by
  simp only [isInert, Bool.and_eq_true, bne_iff_ne] at hc
  rw [stripFrom_plain_cons hc.1.2, if_neg hc.1.1, if_neg (by simp [hc.2])]

theorem stripFrom_inert_append {cs : List Char} (hcs : ∀ c ∈ cs, isInert c = true)
    (rest : List Char) : stripFrom .plain (cs ++ rest) = cs ++ stripFrom .plain rest := by
  induction cs with
  | nil => rfl
  | cons c cs ih =>
    rw [List.cons_append, stripFrom_inert (hcs c (by simp)), ih fun d hd => hcs d (by simp [hd])]
    rfl

theorem stripFrom_string_char {c : Char} (hquote : c ≠ '"') (hescape : c ≠ '\\') (cs : List Char) :
    stripFrom .string (c :: cs) = c :: stripFrom .string cs := by
  rw [stripFrom_string_cons hescape, if_neg hquote]

theorem stripFrom_string_escape (c : Char) (cs : List Char) :
    stripFrom .string ('\\' :: c :: cs) = '\\' :: c :: stripFrom .string cs := rfl

theorem stripFrom_slashes (cs : List Char) :
    stripFrom .plain ('/' :: '/' :: cs) = stripFrom .lineComment cs := rfl

/-- A comment goes up to the end of its line. -/
theorem stripFrom_lineComment {text : List Char} (htext : '\n' ∉ text) (rest : List Char) :
    stripFrom .lineComment (text ++ rest) = stripFrom .lineComment rest := by
  induction text with
  | nil => rfl
  | cons c text ih =>
    obtain ⟨hc, htext⟩ := List.ne_and_not_mem_of_not_mem_cons htext
    rw [List.cons_append, stripFrom_lineComment_cons, if_neg (Ne.symm hc), ih htext]

theorem stripFrom_lineComment_end (rest : List Char) :
    stripFrom .lineComment ('\n' :: rest) = '\n' :: stripFrom .plain rest := rfl

theorem stripFrom_slash_star (cs : List Char) :
    stripFrom .plain ('/' :: '*' :: cs) = stripFrom (.blockComment false) cs := rfl

/-- Within the text of a comment between stars no star stands before a slash; `starred` tells
whether a star stands before the text. -/
theorem stripFrom_blockComment_append {text : List Char} {starred : Bool}
    (htext : ¬ ['*', '/'] <:+: text) (hstart : starred = true → text.head? ≠ some '/')
    (rest : List Char) : ∃ starred', stripFrom (.blockComment starred) (text ++ rest) =
      stripFrom (.blockComment starred') rest := by
  induction text generalizing starred with
  | nil => exact ⟨starred, rfl⟩
  | cons c text ih =>
    have hc : ¬ (starred && decide (c = '/')) = true := by
      simp only [Bool.and_eq_true, decide_eq_true_eq]
      rintro ⟨hstarred, rfl⟩
      exact hstart hstarred rfl
    have hinfix : ¬ ['*', '/'] <:+: text := fun h =>
      htext (h.trans (List.suffix_cons c text).isInfix)
    have hnext : decide (c = '*') = true → text.head? ≠ some '/' := by
      rintro hstar hslash
      obtain rfl := of_decide_eq_true hstar
      obtain ⟨tail, rfl⟩ := List.head?_eq_some_iff.1 hslash
      exact htext (List.prefix_append ['*', '/'] tail).isInfix
    rw [List.cons_append, stripFrom_blockComment_cons, if_neg hc]
    exact ih hinfix hnext

/-- A comment between stars goes up to the first star before a slash. -/
theorem stripFrom_blockComment {text : List Char} (htext : ¬ ['*', '/'] <:+: text)
    (rest : List Char) :
    stripFrom (.blockComment false) (text ++ '*' :: '/' :: rest) = stripFrom .plain rest := by
  have hstart : false = true → text.head? ≠ some '/' := fun h => by cases h
  obtain ⟨starred, hstrip⟩ := stripFrom_blockComment_append htext hstart ('*' :: '/' :: rest)
  rw [hstrip]
  cases starred <;> rfl

theorem stripFrom_comma_of_beforeClose {cs : List Char} (h : beforeClose cs = true) :
    stripFrom .plain (',' :: cs) = stripFrom .plain cs := by
  rw [stripFrom_plain_cons (by decide), if_neg (by decide), if_pos (by simp [h])]

theorem stripFrom_comma {cs : List Char} (h : beforeClose cs = false) :
    stripFrom .plain (',' :: cs) = ',' :: stripFrom .plain cs := by
  rw [stripFrom_plain_cons (by decide), if_neg (by decide), if_neg (by simp [h])]

/-! ### Strings and gaps -/

theorem ne_of_hexDigit? {c : Char} {n : Nat} (h : hexDigit? c = some n) : c ≠ '"' ∧ c ≠ '\\' := by
  have hquote : hexDigit? '"' = none := by decide
  have hescape : hexDigit? '\\' = none := by decide
  exact ⟨by rintro rfl; simp [hquote] at h, by rintro rfl; simp [hescape] at h⟩

theorem stripFrom_part (part : StringPart) (rest : List Char) :
    stripFrom .string (part.text ++ rest) = part.text ++ stripFrom .string rest := by
  cases part with
  | char c h => exact stripFrom_string_char h.2.1 h.2.2 rest
  | letter e value h => exact stripFrom_string_escape e rest
  | unit a b c d value h =>
    simp only [hexUnit?, Option.bind_eq_bind, Option.bind_eq_some_iff] at h
    obtain ⟨na, ha, nb, hb, nc, hc, nd, hd, -⟩ := h
    simp only [StringPart.text, List.cons_append, List.nil_append, stripFrom_string_escape,
      stripFrom_string_char (ne_of_hexDigit? ha).1 (ne_of_hexDigit? ha).2,
      stripFrom_string_char (ne_of_hexDigit? hb).1 (ne_of_hexDigit? hb).2,
      stripFrom_string_char (ne_of_hexDigit? hc).1 (ne_of_hexDigit? hc).2,
      stripFrom_string_char (ne_of_hexDigit? hd).1 (ne_of_hexDigit? hd).2]

theorem stripFrom_partsText (parts : List StringPart) (rest : List Char) :
    stripFrom .string (partsText parts ++ rest) = partsText parts ++ stripFrom .plain rest := by
  induction parts with
  | nil => rfl
  | cons part parts ih => rw [partsText_cons, stripFrom_part, ih, partsText_cons]

/-- Strings are left alone. -/
theorem stripFrom_string (parts : List StringPart) (rest : List Char) :
    stripFrom .plain ('"' :: (partsText parts ++ rest)) =
      '"' :: (partsText parts ++ stripFrom .plain rest) := by
  rw [← stripFrom_partsText, stripFrom_plain_cons (by decide), if_pos rfl]

theorem isInert_of_isJsonBlank {c : Char} (hc : isJsonBlank c = true) : isInert c = true := by
  simp only [isJsonBlank, Bool.or_eq_true, beq_iff_eq] at hc
  rcases hc with ((rfl | rfl) | rfl) | rfl <;> decide

theorem isSpace_of_isJsonBlank {c : Char} (hc : isJsonBlank c = true) : isSpace c = true := by
  simp only [isJsonBlank, Bool.or_eq_true, beq_iff_eq] at hc
  rcases hc with ((rfl | rfl) | rfl) | rfl <;> decide

/-- A comment is stripped, the line end behind it apart, and blanks are kept. -/
theorem stripFrom_filler (f : Filler) (rest : List Char) :
    stripFrom .plain (f.text ++ rest) = f.stripped.text ++ stripFrom .plain rest := by
  cases f with
  | blanks cs h => exact stripFrom_inert_append (fun c hc => isInert_of_isJsonBlank (h c hc)) rest
  | line comment inserted =>
    simp only [Filler.text, Filler.stripped, List.cons_append, List.append_assoc]
    rw [stripFrom_slashes, stripFrom_lineComment comment.not_mem_line]
    exact stripFrom_lineComment_end rest
  | block text h =>
    simp only [Filler.text, Filler.stripped, List.cons_append, List.append_assoc, List.nil_append]
    rw [stripFrom_slash_star, stripFrom_blockComment h]

theorem stripFrom_gap (g : Gap) (rest : List Char) :
    stripFrom .plain (g.text ++ rest) = g.stripped.text ++ stripFrom .plain rest := by
  induction g with
  | nil => rfl
  | cons f g ih =>
    simp only [Gap.text, Gap.stripped, List.flatMap_cons, List.map_cons, List.append_assoc] at ih ⊢
    rw [stripFrom_filler, ih]

theorem stripFrom_space (s : Style) (g : Gap) (rest : List Char) :
    stripFrom .plain (s.space g ++ rest) = s.stripped.space g ++ stripFrom .plain rest :=
  stripFrom_gap (s.gap g) rest

/-! ### Commas -/

theorem beforeClose_cons (c : Char) (cs : List Char) :
    beforeClose (c :: cs) = if isSpace c then beforeClose cs else c == '\x7d' || c == ']' := by
  cases hc : isSpace c <;> simp [beforeClose, hc]

theorem beforeClose_space_append {cs : List Char} (hcs : ∀ c ∈ cs, isSpace c = true)
    (rest : List Char) : beforeClose (cs ++ rest) = beforeClose rest := by
  rw [beforeClose, List.dropWhile_append_of_pos hcs, beforeClose]

/-- A comment hides the bracket behind it. -/
theorem beforeClose_gap (g : Gap) (rest : List Char) :
    beforeClose (g.text ++ rest) = (!g.hasComment && beforeClose rest) := by
  induction g with
  | nil => simp [Gap.text, Gap.hasComment]
  | cons f g ih =>
    simp only [Gap.text, Gap.hasComment, List.flatMap_cons, List.any_cons,
      List.append_assoc] at ih ⊢
    cases f with
    | blanks cs h =>
      rw [Filler.text, beforeClose_space_append fun c hc => isSpace_of_isJsonBlank (h c hc), ih]
      simp [Filler.isComment]
    | line comment inserted =>
      simp [Filler.text, Filler.isComment, beforeClose_cons, isSpace]
    | block text h => simp [Filler.text, Filler.isComment, beforeClose_cons, isSpace]

theorem isSpace_of_isDigit {c : Char} (h : c.isDigit = true) : isSpace c = false := by
  simp only [Char.isDigit, Bool.and_eq_true, decide_eq_true_eq] at h
  have hlow : 48 ≤ c.toNat := h.1
  have hhigh : c.toNat ≤ 57 := h.2
  rw [Bool.eq_false_iff]
  simp only [isSpace, ne_eq, Bool.or_eq_true, Bool.and_eq_true, decide_eq_true_eq, beq_iff_eq]
  omega

/-- A comma before a value is not the last one. -/
theorem beforeClose_of_startsValue {c : Char} (h : startsValue c = true) (cs : List Char) :
    beforeClose (c :: cs) = false := by
  have hcases : c.isDigit = true ∨ c ∈ ['-', '"', 'n', 't', 'f', '[', '\x7b'] := by
    simpa [startsValue, Scalar.starts, or_assoc] using h
  rcases hcases with hdigit | hmark
  · have hclosing : ∀ d : Char, d.isDigit = false → c ≠ d := by
      rintro d hd rfl
      simp [hd] at hdigit
    simp [beforeClose_cons, isSpace_of_isDigit hdigit, hclosing '\x7d' (by decide),
      hclosing ']' (by decide)]
  · simp only [List.mem_cons, List.not_mem_nil, or_false] at hmark
    rcases hmark with rfl | rfl | rfl | rfl | rfl | rfl | rfl <;> simp [beforeClose_cons, isSpace]

/-- A comma between items is not one before a bracket. -/
theorem beforeClose_items (s : Style) (items : Items b) (rest : List Char) :
    beforeClose (items.write s ++ rest) = false := by
  obtain ⟨g, c, cs, hwrite, hc⟩ := items.exists_write s
  rw [hwrite, List.append_assoc, Style.space, beforeClose_gap, List.cons_append,
    beforeClose_of_startsValue hc, Bool.and_false]

/-! ### Layouts -/

/-- A scalar is kept as it is written, strings included. -/
theorem stripFrom_scalar (t : Scalar) (rest : List Char) :
    stripFrom .plain (t.text ++ rest) = t.text ++ stripFrom .plain rest := by
  cases t with
  | null => exact stripFrom_inert_append (List.all_eq_true.1 (by decide)) rest
  | bool value =>
    cases value <;> exact stripFrom_inert_append (List.all_eq_true.1 (by decide)) rest
  | number literal h =>
    refine stripFrom_inert_append (fun c hc => ?_) rest
    rcases Scalar.mem_text_number h hc with hdigit | hmark
    · simp only [isInert, Bool.and_eq_true, bne_iff_ne]
      refine ⟨⟨?_, ?_⟩, ?_⟩ <;> · rintro rfl; exact absurd hdigit (by decide)
    · simp only [List.mem_cons, List.not_mem_nil, or_false] at hmark
      rcases hmark with rfl | rfl | rfl | rfl | rfl <;> decide
  | string parts => exact stripFrom_string parts rest

theorem stripFrom_label (s : Style) (label : Label b) (rest : List Char) :
    stripFrom .plain (label.write s ++ rest) =
      label.write s.stripped ++ stripFrom .plain rest := by
  cases label with
  | place => rfl
  | name parts before after =>
    simp only [Label.write, List.cons_append, List.append_assoc]
    rw [stripFrom_string, stripFrom_space, stripFrom_inert (by decide), stripFrom_space]

theorem stripFrom_opening (b : Bracket) (cs : List Char) :
    stripFrom .plain (b.opening :: cs) = b.opening :: stripFrom .plain cs :=
  stripFrom_inert (by cases b <;> decide) cs

theorem stripFrom_closing (b : Bracket) (cs : List Char) :
    stripFrom .plain (b.closing :: cs) = b.closing :: stripFrom .plain cs :=
  stripFrom_inert (by cases b <;> decide) cs

/-- A comma behind the last item goes unless a comment hides the bracket. -/
theorem stripFrom_ending (s : Style) (b : Bracket) (comma : Option Gap) (rest : List Char) :
    stripFrom .plain (s.ending comma ++ b.closing :: rest) =
      s.stripped.ending comma ++ b.closing :: stripFrom .plain rest := by
  cases comma with
  | none => exact stripFrom_closing b rest
  | some g =>
    -- the look ahead goes past blanks but not past a comment
    have hclose : beforeClose (s.space g ++ b.closing :: rest) = !(s.gap g).hasComment := by
      rw [Style.space, beforeClose_gap, beforeClose_cons]
      cases b <;> simp [Bracket.closing, isSpace]
    have hspace : stripFrom .plain (s.space g ++ b.closing :: rest) =
        s.stripped.space g ++ b.closing :: stripFrom .plain rest := by
      rw [stripFrom_space, stripFrom_closing]
    cases hcomma : s.comma g with
    | false => simpa [Style.ending, Style.stripped, hcomma] using hspace
    | true =>
      cases hcomment : (s.gap g).hasComment with
      | false =>
        have hdrop := stripFrom_comma_of_beforeClose (by rw [hclose, hcomment]; rfl)
        simpa [Style.ending, Style.stripped, hcomma, hcomment] using hdrop.trans hspace
      | true =>
        have hkeep := stripFrom_comma (by rw [hclose, hcomment]; rfl)
        rw [hspace] at hkeep
        simpa [Style.ending, Style.stripped, hcomma, hcomment] using hkeep

mutual
/-- Stripping a layout leaves the layout in the stripped style. The recursion is that of the layout.
-/
theorem Layout.stripFrom_write (s : Style) : ∀ (d : Layout) (rest : List Char),
    stripFrom .plain (d.write s ++ rest) = d.write s.stripped ++ stripFrom .plain rest
  | .scalar token, rest => by
    simpa using stripFrom_scalar token rest
  | .empty b inside, rest => by
    simp only [Layout.write, List.cons_append, List.append_assoc, List.nil_append]
    rw [stripFrom_opening, stripFrom_space, stripFrom_closing]
  | .filled b items, rest => by
    simp only [Layout.write, List.cons_append]
    rw [stripFrom_opening, Items.stripFrom_write s items rest]

theorem Items.stripFrom_write (s : Style) : ∀ (items : Items b) (rest : List Char),
    stripFrom .plain (items.write s ++ rest) = items.write s.stripped ++ stripFrom .plain rest
  | .last before label value after comma, rest => by
    simp only [Items.write, List.append_assoc, List.singleton_append]
    rw [stripFrom_space, stripFrom_label, Layout.stripFrom_write s value, stripFrom_space,
      stripFrom_ending]
  | .more before label value after items, rest => by
    simp only [Items.write, List.append_assoc, List.cons_append]
    rw [stripFrom_space, stripFrom_label, Layout.stripFrom_write s value, stripFrom_space,
      stripFrom_comma (beforeClose_items s items rest), Items.stripFrom_write s items rest]
end

/-! ### Documents -/

/-- A JSON document with the comments, and the commas behind last items, that decorate it. A comment
on the last line needs no line feed. -/
structure Document where
  before : Gap
  value : Layout
  after : Gap
  last : Option LineComment

namespace Document

def chars (d : Document) (s : Style) (last : List Char) : List Char :=
  s.space d.before ++ (d.value.write s ++ (s.space d.after ++ last))

/-- The text with its decorations. -/
def text (d : Document) : String :=
  .ofList (d.chars .decorated (d.last.elim [] fun comment => '/' :: '/' :: comment.line))

/-- The text without its decorations. -/
def plainText (d : Document) : String := .ofList (d.chars .plain (d.last.elim [] LineComment.own))

/-- Whether a comment stands between a comma behind a last item and the closing bracket. -/
def hidesComma (d : Document) : Bool := d.value.hasComma Gap.hasComment

theorem stripFrom_chars (d : Document) (s : Style) (last : List Char) :
    stripFrom .plain (d.chars s last) = d.chars s.stripped (stripFrom .plain last) := by
  rw [chars, stripFrom_space, Layout.stripFrom_write, stripFrom_space, chars]

theorem strip_text (d : Document) :
    strip d.text = .ofList (d.chars Style.decorated.stripped []) := by
  rw [strip, text, String.toList_ofList, stripFrom_chars]
  congr 2
  cases d.last with
  | none => rfl
  | some comment =>
    have hcomment := stripFrom_lineComment comment.not_mem_line []
    rw [List.append_nil] at hcomment
    rw [Option.elim_some, stripFrom_slashes, hcomment]
    rfl

theorem strip_plainText (d : Document) :
    strip d.plainText =
      .ofList (d.chars Style.plain.stripped (d.last.elim [] LineComment.own)) := by
  rw [strip, plainText, String.toList_ofList, stripFrom_chars]
  congr 2
  cases d.last with
  | none => rfl
  | some comment =>
    have hinert : ∀ c ∈ comment.own, isInert c = true := fun c hc =>
      isInert_of_isJsonBlank (comment.blank_own c hc).1
    have hstrip := stripFrom_inert_append hinert []
    rw [List.append_nil] at hstrip
    exact hstrip.trans (List.append_nil _)

/-- Blanks before and behind a document make no difference to a reader of its value. -/
theorem complete_chars (d : Document) {s : Style} (hs : s.IsStrict) {last : List Char}
    (hlast : ∀ c ∈ last, isJsonBlank c = true) {r : Reader α} {meaning : Layout → Option α}
    (h : Reads s r meaning) :
    complete r (.ofList (d.chars s last)) =
      if d.value.hasComma s.comma then none else meaning d.value := by
  refine h.complete_write d.before d.value ?_
  intro c hc
  rcases List.mem_append.1 hc with hc | hc
  · exact Gap.isJsonBlank_of_mem_text (hs d.after) hc
  · exact hlast c hc

theorem parseShape_chars (d : Document) {s : Style} (hs : s.IsStrict) {last : List Char}
    (hlast : ∀ c ∈ last, isJsonBlank c = true) (shape : Shape) :
    parseShape shape (.ofList (d.chars s last)) =
      if d.value.hasComma s.comma then none else d.value.wanted? maxDepth shape :=
  d.complete_chars hs hlast (reads_readShape hs maxDepth shape)

theorem parseShape_strip_text (d : Document) (shape : Shape) :
    parseShape shape (strip d.text) =
      if d.hidesComma then none else d.value.wanted? maxDepth shape := by
  rw [strip_text]
  exact d.parseShape_chars Style.decorated.isStrict_stripped (by simp) shape

theorem isJsonBlank_of_mem_last (d : Document) {c : Char}
    (hc : c ∈ d.last.elim [] LineComment.own) : isJsonBlank c = true := by
  cases hlast : d.last with
  | none => simp [hlast] at hc
  | some comment =>
    rw [hlast] at hc
    exact (comment.blank_own c hc).1

theorem parseShape_strip_plainText (d : Document) (shape : Shape) :
    parseShape shape (strip d.plainText) = d.value.wanted? maxDepth shape := by
  have hlast : ∀ c ∈ d.last.elim [] LineComment.own, isJsonBlank c = true :=
    fun _ => d.isJsonBlank_of_mem_last
  have hcomma : d.value.hasComma Style.plain.stripped.comma = false :=
    Layout.hasComma_of_false (fun _ => rfl) d.value
  rw [strip_plainText, d.parseShape_chars Style.plain.isStrict_stripped hlast shape, hcomma]
  rfl

end Document

end DeadCode.Json

namespace DeadCode.CompilerConfig

/-- Comments and commas behind last items make no difference, except that nothing is read where a
comment stands between such a comma and the closing bracket. -/
theorem parse_decorated (d : Json.Document) :
    parse d.text = if d.hidesComma then none else parse d.plainText := by
  simp only [parse, d.parseShape_strip_text, d.parseShape_strip_plainText]
  split <;> rfl

/-- An object with the field `extends` only, and a comment behind the comma after it. -/
def commentedBase : Json.Document where
  before := []
  value := .filled .curly (.last []
    (.name [.char 'e' (by decide), .char 'x' (by decide), .char 't' (by decide),
      .char 'e' (by decide), .char 'n' (by decide), .char 'd' (by decide), .char 's' (by decide)]
      [] [.blanks [' '] (by simp [Json.isJsonBlank])])
    (.scalar (.string [.char '.' (by decide), .char '/' (by decide), .char 'b' (by decide),
      .char 'a' (by decide), .char 's' (by decide), .char 'e' (by decide)]))
    []
    (some [.blanks [' '] (by simp [Json.isJsonBlank]), .block [' ', 'c', ' '] (by decide)]))
  after := []
  last := none

/-- A comment behind the last comma takes the whole configuration away. -/
theorem parse_hidden_comma :
    commentedBase.text = "\x7b\"extends\": \"./base\", /* c */\x7d" ∧
      commentedBase.plainText = "\x7b\"extends\": \"./base\" \x7d" ∧
      (parse commentedBase.plainText).map CompilerConfig.bases = some ["./base"] ∧
      (parse commentedBase.text).isNone = true := by
  decide +kernel

end DeadCode.CompilerConfig
