import DeadCode.Proofs.JsonGrammar
import DeadCode.Proofs.Relaxed

/-!
# DeadCode.Proofs.Comments

What stripping does to a text that need not be JSON. A text is cut into strings, comments and single
characters. Each piece is stripped on its own whatever follows it, but for a comma, which asks
whether a closing bracket comes next (`stripFrom_piece`). Without a comma before a closing bracket
the pieces therefore stay as they are and only the comments go.

A strict text is a layout in the plain style, in which there is nothing to strip.
-/

namespace DeadCode.Json

open Text

/-! ### Pieces -/

/-- A character of a string as it is written; behind a backslash it can be any. -/
inductive QuotedChar where
  | plain (c : Char) (h : c ≠ '"' ∧ c ≠ '\\')
  | escaped (c : Char)

def QuotedChar.text : QuotedChar → List Char
  | plain c _ => [c]
  | escaped c => ['\\', c]

/-- A piece of a relaxed text: a string, a comment, or a character that is in neither. -/
inductive Piece where
  | string (chars : List QuotedChar)
  /-- A comment between stars. -/
  | block (text : List Char) (h : ¬ ['*', '/'] <:+: text)
  /-- A comment up to the end of its line. -/
  | line (text : List Char) (h : '\n' ∉ text)
  | other (c : Char) (h : c ≠ '"' ∧ c ≠ '/')

namespace Piece

def text : Piece → List Char
  | string chars => '"' :: (chars.flatMap QuotedChar.text ++ ['"'])
  | block text _ => '/' :: '*' :: (text ++ ['*', '/'])
  | line text _ => '/' :: '/' :: (text ++ ['\n'])
  | other c _ => [c]

/-- The piece without comments; the line feed behind a comment stays. -/
def bare : Piece → List Char
  | block _ _ => []
  | line _ _ => ['\n']
  | piece => piece.text

end Piece

/-- What can stand behind the last piece: a comment at the end of a text need not be closed. -/
inductive LastComment where
  | none
  | line (text : List Char) (h : '\n' ∉ text)
  | block (text : List Char) (h : ¬ ['*', '/'] <:+: text)

def LastComment.text : LastComment → List Char
  | none => []
  | line text _ => '/' :: '/' :: text
  | block text _ => '/' :: '*' :: text

/-- A text in pieces. -/
structure RelaxedText where
  pieces : List Piece
  last : LastComment

namespace RelaxedText

def text (t : RelaxedText) : String := .ofList (t.pieces.flatMap Piece.text ++ t.last.text)

/-- The text without its comments. -/
def bareText (t : RelaxedText) : String := .ofList (t.pieces.flatMap Piece.bare)

end RelaxedText

/-- The text goes on with a closing bracket, possibly behind white space. -/
def ClosesNext (cs : List Char) : Prop :=
  ∃ spaces c rest, cs = spaces ++ c :: rest ∧ (∀ s ∈ spaces, isSpace s = true) ∧
    (c = '\x7d' ∨ c = ']')

/-- Looking ahead for a closing bracket passes over white space alone. -/
theorem closesNext_iff {cs : List Char} : ClosesNext cs ↔ beforeClose cs = true := by
  constructor
  · intro h
    obtain ⟨spaces, c, rest, rfl, hspaces, hc⟩ := h
    rw [beforeClose_space_append hspaces, beforeClose_cons]
    rcases hc with rfl | rfl <;> simp [isSpace]
  · intro h
    rw [beforeClose] at h
    cases hrest : cs.dropWhile isSpace with
    | nil => simp [hrest] at h
    | cons c rest =>
      have hc : c = '\x7d' ∨ c = ']' := by simpa [hrest] using h
      refine ⟨cs.takeWhile isSpace, c, rest, ?_, fun _ => List.mem_takeWhile_imp, hc⟩
      rw [← hrest, List.takeWhile_append_dropWhile]

/-- Some comma outside strings and comments stands before a closing bracket, with nothing but white
space between them. -/
def RelaxedText.HasLastComma (t : RelaxedText) : Prop :=
  ∃ h after, .other ',' h :: after <:+ t.pieces ∧
    ClosesNext (after.flatMap Piece.text ++ t.last.text)

/-! ### Stripping pieces -/

/-- A string is kept as it is, up to its closing quote. -/
theorem stripFrom_quoted (chars : List QuotedChar) (rest : List Char) :
    stripFrom .string (chars.flatMap QuotedChar.text ++ '"' :: rest) =
      chars.flatMap QuotedChar.text ++ '"' :: stripFrom .plain rest := by
  induction chars with
  | nil => rfl
  | cons char chars ih =>
    cases char with
    | plain c h =>
      simp only [List.flatMap_cons, QuotedChar.text, List.cons_append, List.nil_append]
      rw [stripFrom_string_char h.1 h.2, ih]
    | escaped c =>
      simp only [List.flatMap_cons, QuotedChar.text, List.cons_append, List.nil_append]
      rw [stripFrom_string_escape, ih]

/-- A piece is stripped on its own, unless it is a comma before a closing bracket. -/
theorem stripFrom_piece (piece : Piece) {rest : List Char}
    (h : ∀ hc, piece = .other ',' hc → ¬ ClosesNext rest) :
    stripFrom .plain (piece.text ++ rest) = piece.bare ++ stripFrom .plain rest := by
  cases piece with
  | string chars =>
    simp only [Piece.text, Piece.bare, List.cons_append, List.append_assoc, List.nil_append]
    rw [stripFrom_plain_cons (by decide), if_pos rfl, stripFrom_quoted]
  | block text htext =>
    simp only [Piece.text, Piece.bare, List.cons_append, List.append_assoc, List.nil_append]
    rw [stripFrom_slash_star, stripFrom_blockComment htext]
  | line text htext =>
    simp only [Piece.text, Piece.bare, List.cons_append, List.append_assoc, List.nil_append]
    rw [stripFrom_slashes, stripFrom_lineComment htext, stripFrom_lineComment_end]
  | other c hc =>
    by_cases hcomma : c = ','
    · subst hcomma
      have hclose : beforeClose rest = false := by
        simpa [closesNext_iff] using h hc rfl
      exact stripFrom_comma hclose
    · exact stripFrom_inert (by simp [isInert, hc.1, hc.2, hcomma]) rest

/-- Pieces are stripped one by one. The induction is on the pieces; that no comma among them is the
last of its list is used where a comma is passed. -/
theorem stripFrom_pieces (pieces : List Piece) (tail : List Char)
    (h : ∀ hc after, .other ',' hc :: after <:+ pieces →
      ¬ ClosesNext (after.flatMap Piece.text ++ tail)) :
    stripFrom .plain (pieces.flatMap Piece.text ++ tail) =
      pieces.flatMap Piece.bare ++ stripFrom .plain tail := by
  induction pieces with
  | nil => rfl
  | cons piece pieces ih =>
    have hpiece : ∀ hc, piece = .other ',' hc →
        ¬ ClosesNext (pieces.flatMap Piece.text ++ tail) := by
      intro hc heq
      subst heq
      exact h hc pieces List.suffix_rfl
    have hpieces := ih fun hc after hafter => h hc after (hafter.trans (List.suffix_cons ..))
    rw [List.flatMap_cons, List.append_assoc, stripFrom_piece piece hpiece, hpieces,
      List.flatMap_cons, List.append_assoc]

/-- A comment that is open at the end of the text goes to the end. -/
theorem stripFrom_last (last : LastComment) : stripFrom .plain last.text = [] := by
  cases last with
  | none => rfl
  | line text h =>
    have hstrip := stripFrom_lineComment h []
    rw [List.append_nil] at hstrip
    rw [LastComment.text, stripFrom_slashes, hstrip]
    rfl
  | block text h =>
    have hstart : false = true → text.head? ≠ some '/' := fun h => by cases h
    obtain ⟨starred, hstrip⟩ := stripFrom_blockComment_append h hstart []
    rw [List.append_nil] at hstrip
    rw [LastComment.text, stripFrom_slash_star, hstrip]
    rfl

theorem RelaxedText.strip_text {t : RelaxedText} (h : ¬ t.HasLastComma) :
    strip t.text = t.bareText := by
  have hpieces := stripFrom_pieces t.pieces t.last.text
    fun hc after hafter hclose => h ⟨hc, after, hafter, hclose⟩
  rw [strip, text, String.toList_ofList, hpieces, stripFrom_last, List.append_nil, bareText]

/-! ### Strict texts -/

theorem Style.stripped_plain : Style.plain.stripped = .plain := by
  have hgap : ∀ g : Gap, g.plain.stripped = g.plain := by
    intro g
    rw [Gap.stripped, Gap.plain, List.map_map]
    refine List.map_congr_left fun f _ => ?_
    cases f <;> rfl
  rw [stripped, plain]
  simp only [hgap, Bool.false_and]

/-- There is nothing to strip off a text from which a value is read. -/
theorem strip_of_complete {r : Reader α} (hr : TakesLayouts r) {text : String} {a : α}
    (h : complete r text = some a) : strip text = text := by
  obtain ⟨g, d, after, htext⟩ := exists_layout_of_complete hr h
  have hafter : stripFrom .plain (Style.plain.space after) = Style.plain.space after := by
    simpa [Style.stripped_plain, stripFrom] using stripFrom_space .plain after []
  apply String.toList_inj.1
  rw [strip, String.toList_ofList, htext, stripFrom_space, Layout.stripFrom_write, hafter,
    Style.stripped_plain]

/-- Stripping removes the comments and nothing else: without a comma before a closing bracket the
other pieces of a text stay, and a strict text stays as it is. -/
theorem strip_removes_comments :
    (∀ t : RelaxedText, ¬ t.HasLastComma → strip t.text = t.bareText) ∧
      ∀ text, complete passValue text = some () → strip text = text :=
  ⟨fun _ => RelaxedText.strip_text, fun _ => strip_of_complete takesLayouts_passValue⟩

/-- Comment marks in a string, quotes in comments, a slash behind an opening star, a star before a
closing one, a comma with a space behind it, and a comment that the text ends in. -/
def markedText : RelaxedText where
  pieces := [.other '[' (by decide), .string [.escaped '"', .plain '/' (by decide),
    .plain '*' (by decide)], .other ',' (by decide), .other ' ' (by decide),
    .block ['/', '"', '*'] (by decide), .other '1' (by decide), .line ['"', '*', '/'] (by decide),
    .other ']' (by decide)]
  last := .block ['/'] (by decide)

theorem strip_markedText :
    markedText.text = "[\"\\\"/*\", /*/\"**/1//\"*/\n]/*/" ∧ ¬ markedText.HasLastComma ∧
      strip markedText.text = "[\"\\\"/*\", 1\n]" ∧
      complete passValue "[\"//\", 1]" = some () ∧ strip "[\"//\", 1]" = "[\"//\", 1]" := by
  have hcomma : ¬ markedText.HasLastComma := by
    intro h
    obtain ⟨hc, after, hsuffix, hclose⟩ := h
    obtain rfl : after = markedText.pieces.drop 3 := by
      simpa [markedText, List.suffix_cons_iff] using hsuffix
    exact absurd (closesNext_iff.1 hclose) (by decide)
  have hstrict : complete passValue "[\"//\", 1]" = some () := by decide
  have htext : markedText.bareText = "[\"\\\"/*\", 1\n]" := by decide
  exact ⟨by decide, hcomma, htext ▸ strip_removes_comments.1 markedText hcomma, hstrict,
    strip_removes_comments.2 _ hstrict⟩

end DeadCode.Json
