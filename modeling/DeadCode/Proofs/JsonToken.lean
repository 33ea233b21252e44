import DeadCode.Json.Reader
import Mathlib.Data.List.TakeWhile

/-!
# DeadCode.Proofs.JsonToken

The scalars of JSON as they are written: `null`, truth values, numbers and strings. Each is read
back whatever follows it, as long as what follows does not go on with it (`EndsToken`).
-/

namespace DeadCode.Json

/-! ### Numbers -/

/-- The parts of a literal stand for a number of the grammar. A fraction without digits is none. -/
structure NumberLiteral.IsWritten (n : NumberLiteral) : Prop where
  whole_ne_nil : n.whole ≠ []
  whole_digits : ∀ c ∈ n.whole, c.isDigit = true
  no_leading_zero : n.whole.head? = some '0' → n.whole = ['0']
  fraction_digits : ∀ c ∈ n.fraction, c.isDigit = true
  exponent : (n.exponentMark = [] ∧ n.exponentSign = [] ∧ n.exponent = []) ∨
    (n.exponentMark ∈ [['e'], ['E']] ∧ n.exponentSign ∈ [[], ['+'], ['-']] ∧ n.exponent ≠ [] ∧
      ∀ c ∈ n.exponent, c.isDigit = true)

/-- Whether a character could go on with a number. -/
def continuesNumber (c : Char) : Bool := c.isDigit || c == '.' || c == 'e' || c == 'E'

/-- The text does not go on with a token that stands before it. -/
def EndsToken (cs : List Char) : Prop := ∀ c ∈ cs.head?, continuesNumber c = false

theorem takeWhile_digits {digits rest : List Char} (hdigits : ∀ c ∈ digits, c.isDigit = true)
    (hrest : ∀ c ∈ rest.head?, c.isDigit = false) :
    (digits ++ rest).takeWhile Char.isDigit = digits ∧
      (digits ++ rest).dropWhile Char.isDigit = rest := by
  rw [List.takeWhile_append_of_pos hdigits, List.dropWhile_append_of_pos hdigits]
  cases rest with
  | nil => simp
  | cons c rest => simp [hrest c rfl]

/-- The whole part of a number is read up to the first character that is no digit. -/
theorem readWhole_append {whole rest : List Char} (hne : whole ≠ [])
    (hdigits : ∀ c ∈ whole, c.isDigit = true) (hzero : whole.head? = some '0' → whole = ['0'])
    (hrest : ∀ c ∈ rest.head?, c.isDigit = false) :
    readWhole (whole ++ rest) = some (whole, rest) := by
  obtain ⟨htake, hdrop⟩ := takeWhile_digits hdigits hrest
  rw [readWhole, htake, hdrop]
  split
  · exact absurd rfl hne
  · simp at hzero
  · rfl

/-- A fraction is read up to the first character that is no digit. -/
theorem readFraction_append {fraction rest : List Char} (hdigits : ∀ c ∈ fraction, c.isDigit = true)
    (hrest : ∀ c ∈ rest.head?, c.isDigit = false ∧ c ≠ '.') :
    readFraction ((if fraction.isEmpty then [] else '.' :: fraction) ++ rest) =
      some (fraction, rest) := by
  cases fraction with
  | nil =>
    cases rest with
    | nil => rfl
    | cons c rest =>
      rw [List.isEmpty_nil, if_pos rfl, List.nil_append, readFraction]
      rintro _ ⟨⟩
      exact (hrest '.' rfl).2 rfl
  | cons digit fraction =>
    obtain ⟨htake, hdrop⟩ := takeWhile_digits hdigits fun c hc => (hrest c hc).1
    rw [List.isEmpty_cons, if_neg (by simp), List.cons_append, readFraction, htake, hdrop]

/-- An exponent is read with its mark and sign, or none where no mark stands. -/
theorem readExponent_append {mark sign exponent rest : List Char}
    (h : (mark = [] ∧ sign = [] ∧ exponent = []) ∨
      (mark ∈ [['e'], ['E']] ∧ sign ∈ [[], ['+'], ['-']] ∧ exponent ≠ [] ∧
        ∀ c ∈ exponent, c.isDigit = true))
    (hrest : EndsToken rest) :
    readExponent (mark ++ sign ++ exponent ++ rest) = some (mark, sign, exponent, rest) := by
  rcases h with ⟨rfl, rfl, rfl⟩ | ⟨hmark, hsign, hne, hdigits⟩
  · cases rest with
    | nil => rfl
    | cons c rest =>
      have hc := hrest c rfl
      simp only [continuesNumber, Bool.or_eq_false_iff] at hc
      simp [readExponent, hc]
  · have hrestDigit : ∀ c ∈ rest.head?, c.isDigit = false := by
      intro c hc
      have := hrest c hc
      simp only [continuesNumber, Bool.or_eq_false_iff] at this
      exact this.1.1.1
    obtain ⟨htake, hdrop⟩ := takeWhile_digits hdigits hrestDigit
    obtain ⟨digit, digits, rfl⟩ := List.exists_cons_of_ne_nil hne
    have hdigit := hdigits digit (List.mem_cons_self ..)
    have hplus : digit ≠ '+' := by rintro rfl; exact absurd hdigit (by decide)
    have hminus : digit ≠ '-' := by rintro rfl; exact absurd hdigit (by decide)
    simp only [List.mem_cons, List.not_mem_nil, or_false] at hmark hsign
    rcases hmark with rfl | rfl <;> rcases hsign with rfl | rfl | rfl <;>
      simp_all [readExponent]

theorem EndsToken.not_digit_or_point {rest : List Char} (h : EndsToken rest) :
    ∀ c ∈ rest.head?, c.isDigit = false ∧ c ≠ '.' := by
  intro c hc
  have := h c hc
  simp only [continuesNumber, Bool.or_eq_false_iff, beq_eq_false_iff_ne] at this
  exact this.1.1

/-- A number is read up to the end of its text. Its parts are read one after the other, and each is
followed by something that does not go on with it. -/
theorem readNumber_text {n : NumberLiteral} (hn : n.IsWritten) {rest : List Char}
    (hrest : EndsToken rest) : readNumber (n.text ++ rest) = some (n, rest) := by
  obtain ⟨negative, whole, fraction, mark, sign, exponent⟩ := n
  obtain ⟨hne, hwhole, hzero, hfraction, hexponent⟩ := hn
  simp only at hne hwhole hzero hfraction hexponent
  -- what stands behind each part does not go on with it
  have hafterFraction : ∀ c ∈ (mark ++ sign ++ exponent ++ rest).head?,
      c.isDigit = false ∧ c ≠ '.' := by
    rcases hexponent with ⟨rfl, rfl, rfl⟩ | ⟨hmark, -⟩
    · exact hrest.not_digit_or_point
    · simp only [List.mem_cons, List.not_mem_nil, or_false] at hmark
      rcases hmark with rfl | rfl <;> · rintro c ⟨⟩; decide
  have hafterWhole : ∀ c ∈ ((if fraction.isEmpty then [] else '.' :: fraction) ++
      (mark ++ sign ++ exponent ++ rest)).head?, c.isDigit = false := by
    cases fraction with
    | nil => exact fun c hc => (hafterFraction c hc).1
    | cons digit fraction => rintro c ⟨⟩; decide
  have hread := readWhole_append hne hwhole hzero hafterWhole
  obtain ⟨digit, digits, rfl⟩ := List.exists_cons_of_ne_nil hne
  have hminus : digit ≠ '-' := by
    rintro rfl
    exact absurd (hwhole '-' (List.mem_cons_self ..)) (by decide)
  have htext :
      NumberLiteral.text ⟨negative, digit :: digits, fraction, mark, sign, exponent⟩ ++ rest =
        (if negative then ['-'] else []) ++ (digit :: digits ++
          ((if fraction.isEmpty then [] else '.' :: fraction) ++
            (mark ++ sign ++ exponent ++ rest))) := by
    simp [NumberLiteral.text]
  have hfractionRead := readFraction_append hfraction hafterFraction
  have hexponentRead := readExponent_append hexponent hrest
  rw [htext, readNumber]
  cases negative <;> simp_all

/-! ### Strings -/

/-- A piece of a string as it is written. -/
inductive StringPart where
  | char (c : Char) (h : 0x20 ≤ c.toNat ∧ c ≠ '"' ∧ c ≠ '\\')
  /-- An escape that is one letter. -/
  | letter (e value : Char) (h : escaped? e = some value)
  /-- An escape that gives a unit of UTF-16 by its digits. -/
  | unit (a b c d : Char) (value : Nat) (h : hexUnit? a b c d = some value)

def StringPart.text : StringPart → List Char
  | .char c _ => [c]
  | .letter e _ _ => ['\\', e]
  | .unit a b c d _ _ => ['\\', 'u', a, b, c, d]

/-- The characters that the parts of a string stand for. Units of a surrogate pair stand for one
character together; outside a pair they stand for none, or, when not `checked`, for the replacement
character. -/
def charsOf? (checked : Bool) : List StringPart → Option (List Char)
  | [] => some []
  | .char c _ :: parts => (charsOf? checked parts).map (c :: ·)
  | .letter _ value _ :: parts => (charsOf? checked parts).map (value :: ·)
  | .unit _ _ _ _ n _ :: parts =>
    if isLeading n && checked then
      match parts with
      | .unit _ _ _ _ m _ :: parts =>
        if isTrailing m then (charsOf? checked parts).map (ofSurrogates n m :: ·) else none
      | _ => none
    else if isTrailing n && checked then none
    else
      let char := if isLeading n || isTrailing n then '\ufffd' else Char.ofNat n
      (charsOf? checked parts).map (char :: ·)

/-- The parts of a string and its closing quote. -/
def partsText (parts : List StringPart) : List Char := parts.flatMap StringPart.text ++ ['"']

theorem partsText_cons (part : StringPart) (parts : List StringPart) (rest : List Char) :
    partsText (part :: parts) ++ rest = part.text ++ (partsText parts ++ rest) := by
  simp [partsText]

/-- A plain character stands for itself. -/
theorem readChars_char (checked : Bool) {c : Char} (h : 0x20 ≤ c.toNat ∧ c ≠ '"' ∧ c ≠ '\\')
    (cs : List Char) :
    readChars checked (c :: cs) = (readChars checked cs).map fun p => (c :: p.1, p.2) := by
  obtain ⟨hcontrol, hquote, hbackslash⟩ := h
  rw [readChars]
  · rw [if_neg (by simp [hbackslash, hcontrol])]
  · exact hquote
  · exact fun _ _ _ _ _ e _ => hbackslash e
  · exact fun _ _ e _ => hbackslash e

theorem ne_u_of_escaped? {e value : Char} (h : escaped? e = some value) : e ≠ 'u' := by
  rintro rfl
  simp [escaped?] at h

/-- An escape by one letter stands for its character. -/
theorem readChars_letter (checked : Bool) {e value : Char} (h : escaped? e = some value)
    (cs : List Char) :
    readChars checked ('\\' :: e :: cs) =
      (readChars checked cs).map fun p => (value :: p.1, p.2) := by
  rw [readChars, h]
  exact fun _ _ _ _ _ e' _ => ne_u_of_escaped? h e'

/-- Only a unit is written with a backslash and a `u`. -/
theorem exists_unit_of_partsText {parts : List StringPart} {rest cs : List Char}
    (h : partsText parts ++ rest = '\\' :: 'u' :: cs) :
    ∃ a b c d value hvalue tail, parts = .unit a b c d value hvalue :: tail := by
  cases parts with
  | nil => simp [partsText] at h
  | cons part tail =>
    rw [partsText_cons] at h
    cases part with
    | char c hc => exact absurd (List.cons.inj h).1 hc.2.2
    | letter e value he =>
      exact absurd (List.cons.inj (List.cons.inj h).2).1 (ne_u_of_escaped? he)
    | unit a b c d value hvalue => exact ⟨a, b, c, d, value, hvalue, tail, rfl⟩

/-- A string is read part by part, and fails where a part stands for nothing. -/
theorem readChars_partsText (checked : Bool) (parts : List StringPart) (rest : List Char) :
    readChars checked (partsText parts ++ rest) = (charsOf? checked parts).map (·, rest) := by
  -- the cases are those of the reader: characters, letters, pairs of surrogates, and units
  fun_induction charsOf? checked parts with
  | case1 => rfl
  | case2 c h parts ih =>
    rw [partsText_cons, StringPart.text, List.singleton_append, readChars_char checked h, ih]
    simp [Function.comp_def]
  | case3 e value h parts ih =>
    rw [partsText_cons, StringPart.text, List.cons_append, List.singleton_append,
      readChars_letter checked h, ih]
    simp [Function.comp_def]
  | case4 a b c d n h hleading a' b' c' d' m h' parts htrailing ih =>
    rw [partsText_cons, partsText_cons]
    simp only [StringPart.text, List.cons_append, List.nil_append]
    rw [readChars]
    simp [h, h', hleading, htrailing, ih, Function.comp_def]
  | case5 a b c d n h hleading a' b' c' d' m h' parts htrailing =>
    rw [partsText_cons, partsText_cons]
    simp only [StringPart.text, List.cons_append, List.nil_append]
    rw [readChars]
    simp [h, h', hleading, htrailing]
  -- a leading surrogate alone: what follows it is no unit of the string, so no pair is read
  | case6 a b c d n h parts hleading hnone =>
    rw [partsText_cons]
    simp only [StringPart.text, List.cons_append, List.nil_append]
    rw [readChars]
    simp only [h, hleading, if_true]
    split
    · next hunit =>
      obtain ⟨a', b', c', d', m, h', tail, rfl⟩ := exists_unit_of_partsText hunit
      exact absurd rfl (hnone a' b' c' d' m h' tail)
    · rfl
  | case7 a b c d n h parts hleading htrailing =>
    rw [partsText_cons]
    simp only [StringPart.text, List.cons_append, List.nil_append]
    rw [readChars]
    simp [h, hleading, htrailing]
  | case8 a b c d n h parts hleading htrailing char ih =>
    rw [partsText_cons]
    simp only [StringPart.text, List.cons_append, List.nil_append]
    rw [readChars]
    simp [h, hleading, htrailing, ih, char, Function.comp_def]

/-- Every string stands for something when surrogates are not checked. -/
theorem isSome_charsOf?_false (parts : List StringPart) : (charsOf? false parts).isSome = true := by
  induction parts with
  | nil => rfl
  | cons part parts ih =>
    cases part with
    | char c h => simpa [charsOf?] using ih
    | letter e value h => simpa [charsOf?] using ih
    | unit a b c d value h =>
      unfold charsOf?
      simpa using ih

/-! ### Scalars -/

/-- A value that is neither array nor object, as it is written. -/
inductive Scalar where
  | null
  | bool (value : Bool)
  | number (literal : NumberLiteral) (h : literal.IsWritten)
  | string (parts : List StringPart)

namespace Scalar

def text : Scalar → List Char
  | .null => "null".toList
  | .bool true => "true".toList
  | .bool false => "false".toList
  | .number literal _ => literal.text
  | .string parts => '"' :: partsText parts

/-- The value that a scalar stands for. Numbers out of range and surrogates outside a pair stand for
none when they are `checked`. -/
def value? (checked : Bool) : Scalar → Option Json
  | .null => some .null
  | .bool value => some (.bool value)
  | .number literal _ =>
    if checked && !literal.inRange then none else some (.number (.ofList literal.text))
  | .string parts => (charsOf? checked parts).map fun s => .string (.ofList s)

theorem isSome_value?_false (t : Scalar) : (t.value? false).isSome = true := by
  cases t with
  | null => rfl
  | bool value => rfl
  | number literal h => simp [value?]
  | string parts => simpa [value?] using isSome_charsOf?_false parts

/-- The characters of a number are digits and a few marks. -/
theorem mem_text_number {n : NumberLiteral} (hn : n.IsWritten) {c : Char} (hc : c ∈ n.text) :
    c.isDigit = true ∨ c ∈ ['-', '.', 'e', 'E', '+'] := by
  simp only [NumberLiteral.text, List.mem_append] at hc
  rcases hc with ((((hc | hc) | hc) | hc) | hc) | hc
  · cases hnegative : n.negative <;> simp_all
  · exact .inl (hn.whole_digits c hc)
  · split at hc
    · simp at hc
    · rcases List.mem_cons.1 hc with rfl | hc
      · simp
      · exact .inl (hn.fraction_digits c hc)
  · rcases hn.exponent with ⟨hmark, -⟩ | ⟨hmark, -⟩ <;> grind
  · rcases hn.exponent with ⟨-, hsign, -⟩ | ⟨-, hsign, -⟩ <;> grind
  · rcases hn.exponent with ⟨-, -, hexponent⟩ | ⟨-, -, -, hexponent⟩
    · simp [hexponent] at hc
    · exact .inl (hexponent c hc)

/-- A number starts with a digit or its sign. -/
theorem exists_cons_text_number {n : NumberLiteral} (hn : n.IsWritten) :
    ∃ c cs, n.text = c :: cs ∧ (c.isDigit = true ∨ c = '-') := by
  obtain ⟨digit, digits, hwhole⟩ := List.exists_cons_of_ne_nil hn.whole_ne_nil
  have hdigit : digit.isDigit = true := hn.whole_digits digit (by simp [hwhole])
  rw [NumberLiteral.text, hwhole]
  cases n.negative with
  | true => exact ⟨'-', _, rfl, .inr rfl⟩
  | false => exact ⟨digit, _, rfl, .inl hdigit⟩

/-- The first character of a scalar tells how to read it. -/
theorem readScalar_text (checked : Bool) (t : Scalar) {rest : List Char} (hrest : EndsToken rest) :
    readScalar checked (t.text ++ rest) = (t.value? checked).map (·, rest) := by
  cases t with
  | null => rfl
  | bool value => cases value <;> rfl
  | number literal h =>
    -- no other scalar starts like a number
    have hstart : ∀ d cs, d ∈ ['n', 't', 'f', '"'] → literal.text ++ rest ≠ d :: cs := by
      intro d cs hd htext
      obtain ⟨c, tail, hcons, hc⟩ := exists_cons_text_number h
      obtain rfl : c = d := by
        rw [hcons] at htext
        exact (List.cons.inj htext).1
      simp only [List.mem_cons, List.not_mem_nil, or_false] at hd
      rcases hd with rfl | rfl | rfl | rfl <;> exact absurd hc (by decide)
    rw [text, readScalar, readNumber_text h hrest]
    · simp only [value?]
      split <;> rfl
    all_goals exact fun _ => hstart _ _ (by simp)
  | string parts =>
    simp only [text, value?, List.cons_append, readScalar, readChars_partsText]
    simp [Function.comp_def]

/-- Whether a scalar can start with the character. -/
def starts (c : Char) : Bool := c.isDigit || ['-', '"', 'n', 't', 'f'].contains c

theorem exists_cons_text (t : Scalar) : ∃ c cs, t.text = c :: cs ∧ starts c = true := by
  cases t with
  | null => exact ⟨'n', _, rfl, by decide⟩
  | bool value => cases value <;> exact ⟨_, _, rfl, by decide⟩
  | number literal h =>
    obtain ⟨c, cs, htext, hc⟩ := exists_cons_text_number h
    refine ⟨c, cs, htext, ?_⟩
    rcases hc with hc | rfl
    · simp [starts, hc]
    · decide
  | string parts => exact ⟨'"', _, rfl, by decide⟩

theorem readScalar_of_not_starts (checked : Bool) {c : Char} (hc : starts c = false)
    (rest : List Char) : readScalar checked (c :: rest) = none := by
  simp only [starts, List.contains_cons, List.contains_nil, Bool.or_false, Bool.or_eq_false_iff,
    beq_eq_false_iff_ne] at hc
  obtain ⟨hdigit, hminus, hquote, hn, ht, hf⟩ := hc
  have hnumber : readNumber (c :: rest) = none := by
    simp [readNumber, readWhole, hminus, hdigit]
  rw [readScalar, hnumber] <;> simp_all

end Scalar

end DeadCode.Json
