import DeadCode.Proofs.JsonLayout

/-!
# DeadCode.Proofs.JsonGrammar

What the readers of JSON accept. A text from which a value is read starts with a layout in the plain
style, that is without comments and without commas behind last items, and what the reader leaves
stands behind it. So the layouts are not only read but are all that is read, and a strict text can
be taken apart along its grammar (`exists_layout_of_complete`).
-/

namespace DeadCode.Json

/-! ### Numbers -/

/-- The whole part of a number is a zero, or digits that do not start with one. -/
theorem eq_append_of_readWhole {cs whole rest : List Char} (h : readWhole cs = some (whole, rest)) :
    cs = whole ++ rest ∧ whole ≠ [] ∧ (∀ c ∈ whole, c.isDigit = true) ∧
      (whole.head? = some '0' → whole = ['0']) := by
  have htext := List.takeWhile_append_dropWhile (p := Char.isDigit) (l := cs)
  have hdigits : ∀ c ∈ cs.takeWhile Char.isDigit, c.isDigit = true :=
    fun _ => List.mem_takeWhile_imp
  rw [readWhole] at h
  split at h
  · cases h
  · cases h
  · next hne hzero =>
    cases h
    refine ⟨htext.symm, hne, hdigits, fun hhead => ?_⟩
    obtain ⟨tail, htail⟩ := List.head?_eq_some_iff.1 hhead
    cases tail with
    | nil => exact htail
    | cons c tail => exact absurd htail (hzero c tail)

/-- A fraction is a point with digits behind it, or there is none. -/
theorem eq_append_of_readFraction {cs fraction rest : List Char}
    (h : readFraction cs = some (fraction, rest)) :
    cs = (if fraction.isEmpty then [] else '.' :: fraction) ++ rest ∧
      ∀ c ∈ fraction, c.isDigit = true := by
  unfold readFraction at h
  split at h
  · next cs =>
    have htext := List.takeWhile_append_dropWhile (p := Char.isDigit) (l := cs)
    split at h
    · cases h
    · next hne =>
      cases h
      have hempty : ¬ (cs.takeWhile Char.isDigit).isEmpty = true := fun he =>
        hne (List.isEmpty_iff.1 he)
      rw [if_neg hempty, List.cons_append, htext]
      exact ⟨rfl, fun _ => List.mem_takeWhile_imp⟩
  · cases h
    exact ⟨rfl, by simp⟩

/-- An optional character is not there, or it is the first one. -/
theorem filter_take_one (p : Char → Bool) (cs : List Char) :
    (cs.take 1).filter p = [] ∨
      ∃ c tail, cs = c :: tail ∧ p c = true ∧ (cs.take 1).filter p = [c] := by
  cases cs with
  | nil => exact .inl rfl
  | cons c tail =>
    cases hc : p c with
    | false => exact .inl (by simp [hc])
    | true => exact .inr ⟨c, tail, rfl, hc, by simp [hc]⟩

/-- An exponent is a mark, possibly a sign, and digits; or there is none. -/
theorem eq_append_of_readExponent {cs mark sign exponent rest : List Char}
    (h : readExponent cs = some (mark, sign, exponent, rest)) :
    cs = mark ++ sign ++ exponent ++ rest ∧
      ((mark = [] ∧ sign = [] ∧ exponent = []) ∨
        (mark ∈ [['e'], ['E']] ∧ sign ∈ [[], ['+'], ['-']] ∧ exponent ≠ [] ∧
          ∀ c ∈ exponent, c.isDigit = true)) := by
  rw [readExponent] at h
  rcases filter_take_one (fun c => c == 'e' || c == 'E') cs with hmark | ⟨e, tail, rfl, he, hmark⟩
  · rw [hmark] at h
    cases h
    exact ⟨rfl, .inl ⟨rfl, rfl, rfl⟩⟩
  · have he : [e] ∈ [['e'], ['E']] := by simpa using he
    rw [hmark, if_neg (by simp), List.drop_succ_cons, List.drop_zero] at h
    dsimp only at h
    -- the sign is optional, the digits behind it are not
    have hsign : ∃ digits, tail.drop ((tail.take 1).filter fun c => c == '+' || c == '-').length =
        digits ∧ tail = ((tail.take 1).filter fun c => c == '+' || c == '-') ++ digits ∧
        ((tail.take 1).filter fun c => c == '+' || c == '-') ∈ [[], ['+'], ['-']] := by
      rcases filter_take_one (fun c => c == '+' || c == '-') tail with
        hsign | ⟨c, digits, htail, hc, hsign⟩
      · rw [hsign]
        exact ⟨tail, rfl, rfl, by simp⟩
      · rw [hsign, htail]
        exact ⟨digits, rfl, rfl, by simpa using hc⟩
    obtain ⟨digits, hdrop, htail, hsign⟩ := hsign
    rw [hdrop] at h
    split at h
    · cases h
    · next hne =>
      cases h
      have htext := List.takeWhile_append_dropWhile (p := Char.isDigit) (l := digits)
      refine ⟨?_, .inr ⟨he, hsign, hne, fun _ => List.mem_takeWhile_imp⟩⟩
      rw [List.append_assoc, htext, List.append_assoc, ← htail]
      rfl

/-- A number is put together from its parts as they were read. -/
theorem isWritten_of_readNumber {cs rest : List Char} {n : NumberLiteral}
    (h : readNumber cs = some (n, rest)) : cs = n.text ++ rest ∧ n.IsWritten := by
  simp only [readNumber, Option.bind_eq_bind, Option.bind_eq_some_iff] at h
  obtain ⟨⟨whole, afterWhole⟩, hwhole, ⟨fraction, afterFraction⟩, hfraction,
    ⟨mark, sign, exponent, afterExponent⟩, hexponent, heq⟩ := h
  cases heq
  obtain ⟨hwhole, hne, hdigits, hzero⟩ := eq_append_of_readWhole hwhole
  obtain ⟨hafterWhole, hfraction⟩ := eq_append_of_readFraction hfraction
  obtain ⟨hafterFraction, hexponent⟩ := eq_append_of_readExponent hexponent
  refine ⟨?_, hne, hdigits, hzero, hfraction, hexponent⟩
  have hsign : cs = (if cs.head? == some '-' then ['-'] else []) ++
      (if cs.head? == some '-' then cs.drop 1 else cs) := by
    split
    · next hminus =>
      obtain ⟨tail, rfl⟩ := List.head?_eq_some_iff.1 (beq_iff_eq.1 hminus)
      rfl
    · rfl
  dsimp only at hafterWhole hafterFraction
  rw [hwhole, hafterWhole, hafterFraction] at hsign
  simpa only [NumberLiteral.text, List.append_assoc] using hsign

/-! ### Strings -/

/-- What is done with a value does not change what a reader leaves. -/
theorem exists_of_map_eq_some {r : Option (α × List Char)} {f : α × List Char → β × List Char}
    {b : β} {rest : List Char} (h : r.map f = some (b, rest)) (hf : ∀ p, (f p).2 = p.2) :
    ∃ a, r = some (a, rest) := by
  obtain ⟨⟨a, left⟩, hr, heq⟩ := Option.map_eq_some_iff.1 h
  obtain rfl : left = rest := (hf (a, left)).symm.trans (congrArg Prod.snd heq)
  exact ⟨a, hr⟩

/-- What is read up to the closing quote is a sequence of plain characters and escapes. -/
theorem exists_parts_of_readChars {checked : Bool} {cs s rest : List Char}
    (h : readChars checked cs = some (s, rest)) :
    ∃ parts : List StringPart, cs = partsText parts ++ rest := by
  -- each character or escape that is read is one part; the cases that are left fail
  fun_induction readChars checked cs generalizing s rest with
  | case1 => cases h
  | case2 cs =>
    cases h
    exact ⟨[], rfl⟩
  | case4 a b c d n hn hleading a' b' c' d' cs m hm htrailing ih =>
    obtain ⟨s, hs⟩ := exists_of_map_eq_some h fun _ => rfl
    obtain ⟨parts, rfl⟩ := ih hs
    exact ⟨.unit a b c d n hn :: .unit a' b' c' d' m hm :: parts,
      by simp [partsText, StringPart.text]⟩
  | case9 a b c d cs n hn hleading htrailing char =>
    rename_i ih
    obtain ⟨s, hs⟩ := exists_of_map_eq_some h fun _ => rfl
    obtain ⟨parts, rfl⟩ := ih hs
    exact ⟨.unit a b c d n hn :: parts, by simp [partsText, StringPart.text]⟩
  | case10 e cs hunit char hchar ih =>
    obtain ⟨s, hs⟩ := exists_of_map_eq_some h fun _ => rfl
    obtain ⟨parts, rfl⟩ := ih hs
    exact ⟨.letter e char hchar :: parts, by simp [partsText, StringPart.text]⟩
  | case13 c cs hquote hunit hescape hplain ih =>
    obtain ⟨s, hs⟩ := exists_of_map_eq_some h fun _ => rfl
    obtain ⟨parts, rfl⟩ := ih hs
    have hc : 0x20 ≤ c.toNat ∧ c ≠ '"' ∧ c ≠ '\\' := by
      simp only [Bool.or_eq_true, decide_eq_true_eq, beq_iff_eq, not_or, Nat.not_lt] at hplain
      exact ⟨hplain.1, hquote, hplain.2⟩
    exact ⟨.char c hc :: parts, by simp [partsText, StringPart.text]⟩
  | case3 | case5 | case6 | case7 | case8 | case11 | case12 => cases h

/-! ### Scalars -/

/-- What is read as a scalar is the text of one. -/
theorem exists_scalar_of_readScalar {checked : Bool} {cs rest : List Char} {v : Json}
    (h : readScalar checked cs = some (v, rest)) : ∃ t : Scalar, cs = t.text ++ rest := by
  unfold readScalar at h
  split at h
  · cases h
    exact ⟨.null, rfl⟩
  · cases h
    exact ⟨.bool true, rfl⟩
  · cases h
    exact ⟨.bool false, rfl⟩
  · obtain ⟨s, hs⟩ := exists_of_map_eq_some h fun _ => rfl
    obtain ⟨parts, rfl⟩ := exists_parts_of_readChars hs
    exact ⟨.string parts, rfl⟩
  · split at h
    · next n left hn =>
      obtain ⟨rfl, hwritten⟩ := isWritten_of_readNumber hn
      split at h
      · cases h
      · cases h
        exact ⟨.number n hwritten, rfl⟩
    · cases h

/-! ### Sequences -/

/-- The blanks that are passed over are a gap. -/
theorem exists_gap_of_skipBlanks {cs rest : List Char} (h : skipBlanks cs = rest) :
    ∃ g : Gap, cs = Style.plain.space g ++ rest := by
  refine ⟨[.blanks (cs.takeWhile isJsonBlank) fun _ => List.mem_takeWhile_imp], ?_⟩
  rw [← h]
  simp [Style.space, Style.plain, Gap.plain, Gap.text, Filler.plain, Filler.text, skipBlanks]

/-- What `r` takes off the front of a text is a layout. -/
def TakesLayouts (r : Reader α) : Prop :=
  ∀ (cs : List Char) (a : α) (rest : List Char), r cs = some (a, rest) →
    ∃ (g : Gap) (d : Layout), cs = Style.plain.space g ++ (d.write .plain ++ rest)

/-- What `item` takes off the front of a text is an item between brackets `b`. -/
def TakesItems (b : Bracket) (item : Nat → Reader α) : Prop :=
  ∀ (i : Nat) (cs : List Char) (a : α) (rest : List Char), item i cs = some (a, rest) →
    ∃ (g : Gap) (label : Label b) (d : Layout),
      cs = Style.plain.space g ++ (label.write .plain ++ (d.write .plain ++ rest))

theorem TakesItems.square {item : Nat → Reader α} (h : ∀ i, TakesLayouts (item i)) :
    TakesItems .square item := by
  intro i cs a rest hitem
  obtain ⟨g, d, hcs⟩ := h i _ _ _ hitem
  exact ⟨g, .place, d, hcs⟩

/-- The name of a field is a string with a colon behind it, and with blanks around it. -/
theorem exists_label_of_readName {checked : Bool} {cs rest : List Char} {name : String}
    (h : readName checked cs = some (name, rest)) :
    ∃ (g : Gap) (parts : List StringPart) (before : Gap),
      cs = Style.plain.space g ++
        '"' :: (partsText parts ++ (Style.plain.space before ++ ':' :: rest)) := by
  rw [readName] at h
  split at h
  · next quoted hquote =>
    obtain ⟨g, rfl⟩ := exists_gap_of_skipBlanks hquote
    split at h
    · next name left hname =>
      obtain ⟨parts, rfl⟩ := exists_parts_of_readChars hname
      split at h
      · next hcolon =>
        obtain ⟨before, rfl⟩ := exists_gap_of_skipBlanks hcolon
        cases h
        exact ⟨g, parts, before, rfl⟩
      · cases h
    · cases h
  · cases h

theorem TakesItems.curly (checked : Bool) {value : String → Reader α}
    (h : ∀ name, TakesLayouts (value name)) :
    TakesItems .curly fun _ => readField checked value := by
  intro i cs a rest hfield
  simp only [readField, Option.bind_eq_bind, Option.bind_eq_some_iff] at hfield
  obtain ⟨⟨name, behind⟩, hname, ⟨v, left⟩, hvalue, heq⟩ := hfield
  cases heq
  obtain ⟨g, parts, before, rfl⟩ := exists_label_of_readName hname
  obtain ⟨after, d, hbehind⟩ := h name _ _ _ hvalue
  refine ⟨g, .name parts before after, d, ?_⟩
  dsimp only at hbehind
  rw [hbehind]
  simp [Label.write]

/-- The items of a bracket are read up to the bracket that closes it. The induction is on the fuel,
with one item and the comma or bracket behind it in each step. -/
theorem exists_items_of_readItems {b : Bracket} {item : Nat → Reader α} (h : TakesItems b item)
    {fuel i : Nat} {cs rest : List Char} {as : List α}
    (hread : readItems b.closing item fuel i cs = some (as, rest)) :
    ∃ items : Items b, cs = items.write .plain ++ rest := by
  induction fuel generalizing i cs as with
  | zero => cases hread
  | succ fuel ih =>
    rw [readItems] at hread
    -- the item, and then the comma or the bracket behind it
    split at hread
    · cases hread
    · next a behind hitem =>
      obtain ⟨before, label, d, rfl⟩ := h _ _ _ _ hitem
      split at hread
      · next more hcomma =>
        obtain ⟨after, rfl⟩ := exists_gap_of_skipBlanks hcomma
        obtain ⟨as, hmore⟩ := exists_of_map_eq_some hread fun _ => rfl
        obtain ⟨items, rfl⟩ := ih hmore
        exact ⟨.more before label d after items, by simp [Items.write]⟩
      · next c left hcomma hclose =>
        obtain ⟨after, rfl⟩ := exists_gap_of_skipBlanks hclose
        split at hread
        · next hc =>
          cases hread
          subst hc
          exact ⟨.last before label d after none, by simp [Items.write, Style.ending]⟩
        · cases hread
      · cases hread

/-- A sequence behind its opening bracket makes a layout together with the bracket. -/
theorem exists_layout_of_readSequence {b : Bracket} {item : Nat → Reader α} (h : TakesItems b item)
    {cs rest : List Char} {as : List α}
    (hread : readSequence b.closing item cs = some (as, rest)) :
    ∃ d : Layout, b.opening :: cs = d.write .plain ++ rest := by
  rw [readSequence] at hread
  split at hread
  · cases hread
  · next c left hskip =>
    split at hread
    · next hc =>
      cases hread
      subst hc
      obtain ⟨inside, rfl⟩ := exists_gap_of_skipBlanks hskip
      exact ⟨.empty b inside, by simp [Layout.write]⟩
    · obtain ⟨items, rfl⟩ := exists_items_of_readItems h hread
      exact ⟨.filled b items, by simp [Layout.write]⟩

/-! ### Values -/

theorem exists_layout_of_readScalar {checked : Bool} {cs rest : List Char} {v : Json}
    (h : readScalar checked (skipBlanks cs) = some (v, rest)) :
    ∃ (g : Gap) (d : Layout), cs = Style.plain.space g ++ (d.write .plain ++ rest) := by
  obtain ⟨t, ht⟩ := exists_scalar_of_readScalar h
  obtain ⟨g, rfl⟩ := exists_gap_of_skipBlanks ht
  exact ⟨g, .scalar t, by rw [Layout.write_scalar]⟩

/-- A value is read from a layout. The induction is on the depth to which values may be nested. -/
theorem takesLayouts_readValue (checked : Bool) (depth : Nat) :
    TakesLayouts (readValue checked depth) := by
  induction depth with
  | zero =>
    intro cs v rest h
    exact exists_layout_of_readScalar h
  | succ depth ih =>
    intro cs v rest h
    rw [readValue] at h
    split at h
    · next items hskip =>
      obtain ⟨g, rfl⟩ := exists_gap_of_skipBlanks hskip
      obtain ⟨values, hread⟩ := exists_of_map_eq_some h fun _ => rfl
      obtain ⟨d, hd⟩ := exists_layout_of_readSequence (b := .square) (.square fun _ => ih) hread
      exact ⟨g, d, congrArg _ hd⟩
    · next fields hskip =>
      obtain ⟨g, rfl⟩ := exists_gap_of_skipBlanks hskip
      obtain ⟨values, hread⟩ := exists_of_map_eq_some h fun _ => rfl
      obtain ⟨d, hd⟩ :=
        exists_layout_of_readSequence (b := .curly) (.curly checked fun _ => ih) hread
      exact ⟨g, d, congrArg _ hd⟩
    · exact exists_layout_of_readScalar h

theorem takesLayouts_passValue : TakesLayouts passValue := by
  intro cs a rest h
  obtain ⟨v, hv⟩ := exists_of_map_eq_some h fun _ => rfl
  exact takesLayouts_readValue false cs.length cs v rest hv

/-- A whole text from which a value is read is a layout between blanks. -/
theorem exists_layout_of_complete {r : Reader α} (hr : TakesLayouts r) {text : String} {a : α}
    (h : complete r text = some a) :
    ∃ (g : Gap) (d : Layout) (after : Gap),
      text.toList = Style.plain.space g ++ (d.write .plain ++ Style.plain.space after) := by
  rw [complete] at h
  split at h
  · next a rest hread =>
    split at h
    · next hblank =>
      obtain ⟨g, d, htext⟩ := hr _ _ _ hread
      obtain ⟨after, rfl⟩ := exists_gap_of_skipBlanks (List.isEmpty_iff.1 hblank)
      exact ⟨g, d, after, by rw [htext, List.append_nil]⟩
    · cases h
  · cases h

end DeadCode.Json
