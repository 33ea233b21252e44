import DeadCode.Syntax.Python
import DeadCode.Proofs.Search
import DeadCode.Proofs.Words

/-!
# DeadCode.Proofs.PythonStatement

Import statements of Python as they are written. A statement keeps its blanks and line breaks, so
that the texts of the statements are all the ways to write them, and a value of `Statement` is
well-formed by its type. Main result here: a plain statement is recognised with its modules and
their aliases (`importStatement_text`).
-/

namespace DeadCode.Python

open Text

/-! ### Names -/

/-- A text of characters in `p`, which may be empty. -/
abbrev Run (p : Char → Bool) := { cs : List Char // cs.all p = true }

/-- A text of one or more characters in `p`. -/
abbrev Gap (p : Char → Bool) := { cs : List Char // cs ≠ [] ∧ cs.all p = true }

theorem of_mem_run {p : Char → Bool} (run : Run p) {c : Char} (h : c ∈ run.1) : p c = true :=
  List.all_eq_true.1 run.2 c h

theorem of_mem_gap {p : Char → Bool} (gap : Gap p) {c : Char} (h : c ∈ gap.1) : p c = true :=
  List.all_eq_true.1 gap.2.2 c h

/-- A name of letters, digits and the like. -/
def IsWordText (cs : List Char) : Prop := cs ≠ [] ∧ cs.all isWord = true

/-- Whether a listed name may hold `c`: it is no space, and it neither separates names nor ends a
list of them. -/
def isNamePart (c : Char) : Bool :=
  !isSpace c && !(['#', ',', ';', '(', ')', '*', '\\'].contains c)

/-- A name that a statement may import: not one of the words that start a statement. -/
structure IsListedName (cs : List Char) : Prop where
  ne_nil : cs ≠ []
  parts : cs.all isNamePart = true
  ne_import : cs ≠ "import".toList
  ne_from : cs ≠ "from".toList

/-- The name of a module, in its segments. -/
structure ModuleName where
  root : List Char
  below : List { cs : List Char // IsWordText cs }
  isWordText : IsWordText root
  start : root.head?.any isNameStart = true

/-- The segments with dots between them. -/
def ModuleName.text (m : ModuleName) : List Char := joinWith ['.'] (m.root :: m.below.map (·.1))

/-- A module from which names are imported. -/
inductive SourceName where
  | absolute (name : ModuleName)
  /-- One dot and `more` further ones, and the segments behind them. -/
  | relative (more : Nat) (segments : List { cs : List Char // IsWordText cs })

def SourceName.text : SourceName → List Char
  | .absolute name => name.text
  | .relative more segments =>
    List.replicate (more + 1) '.' ++ joinWith ['.'] (segments.map (·.1))

/-! ### Lists of names -/

section Lists

variable {space : Char → Bool} {IsName : List Char → Prop} {ι : Type}

/-- The word `as` and a name, each behind some space. -/
structure Alias (space : Char → Bool) (IsName : List Char → Prop) where
  before : Gap space
  behind : Gap space
  name : List Char
  isName : IsName name

def Alias.text (a : Alias space IsName) : List Char :=
  a.before.1 ++ "as".toList ++ a.behind.1 ++ a.name

/-- The text of an alias, if there is one. -/
def aliasText (a : Option (Alias space IsName)) : List Char := a.elim [] Alias.text

theorem forall_mem_aliasText {P : Char → Prop} (hspace : ∀ c, space c = true → P c)
    (has : ∀ c ∈ "as".toList, P c) (hname : ∀ name, IsName name → ∀ c ∈ name, P c)
    (a : Option (Alias space IsName)) : ∀ c ∈ aliasText a, P c := by
  intro c hc
  cases a with
  | none => cases hc
  | some a =>
    rw [aliasText, Option.elim_some, Alias.text, List.mem_append, List.mem_append,
      List.mem_append] at hc
    rcases hc with ((hc | hc) | hc) | hc
    · exact hspace c (of_mem_gap a.before hc)
    · exact has c hc
    · exact hspace c (of_mem_gap a.behind hc)
    · exact hname a.name a.isName c hc

/-- A module of a plain import. -/
structure ModuleItem where
  name : ModuleName
  alias? : Option (Alias isBlank IsWordText)

namespace ModuleItem

def text (i : ModuleItem) : List Char := i.name.text ++ aliasText i.alias?

/-- The name that is bound: the alias, or else the first segment of the module. -/
def bound (i : ModuleItem) : List Char := (i.alias?.map (·.name)).getD i.name.root

/-- What is read of the module. -/
def parts (i : ModuleItem) : List Char × Option (List Char) :=
  (i.name.text, i.alias?.map (·.name))

end ModuleItem

/-- A name that is imported from a module. -/
structure NameItem (space : Char → Bool) where
  name : List Char
  isName : IsListedName name
  alias? : Option (Alias space IsListedName)

namespace NameItem

def text (i : NameItem space) : List Char := i.name ++ aliasText i.alias?

/-- The binding of the name, to its alias or else to itself. -/
def specifier (i : NameItem space) : Specifier :=
  .named (.ofList i.name) (.ofList ((i.alias?.map (·.name)).getD i.name))

end NameItem

/-- Items with a comma between neighbours, and the space before and behind each comma. -/
structure Listing (space : Char → Bool) (ι : Type) where
  first : ι
  others : List (Run space × Run space × ι)

namespace Listing

def items (l : Listing space ι) : List ι := l.first :: l.others.map (·.2.2)

/-- An item that is not the first, behind its comma. -/
def behindComma (itemText : ι → List Char) (other : Run space × Run space × ι) : List Char :=
  other.1.1 ++ ',' :: (other.2.1.1 ++ itemText other.2.2)

def text (itemText : ι → List Char) (l : Listing space ι) : List Char :=
  itemText l.first ++ l.others.flatMap (behindComma itemText)

theorem forall_mem_text {P : Char → Prop} {itemText : ι → List Char}
    (hspace : ∀ c, space c = true → P c) (hcomma : P ',') (hitem : ∀ i, ∀ c ∈ itemText i, P c)
    (l : Listing space ι) : ∀ c ∈ l.text itemText, P c := by
  intro c hc
  rw [text, List.mem_append, List.mem_flatMap] at hc
  rcases hc with hc | ⟨other, -, hc⟩
  · exact hitem _ c hc
  · rw [behindComma, List.mem_append, List.mem_cons, List.mem_append] at hc
    rcases hc with hc | rfl | hc | hc
    · exact hspace c (of_mem_run other.1 hc)
    · exact hcomma
    · exact hspace c (of_mem_run other.2.1 hc)
    · exact hitem _ c hc

end Listing

end Lists

/-! ### Statements -/

/-- What a statement imports from a module. -/
inductive Names where
  /-- A star: all names. -/
  | star
  /-- Names on the line of the statement. -/
  | listed (names : Listing isBlank (NameItem isBlank))
  /-- Names in brackets, over any number of lines, possibly with a comma at the end. -/
  | bracketed (start : Run isSpace) (names : Listing isSpace (NameItem isSpace))
      (stop : Run isSpace) (comma? : Option (Run isSpace))

namespace Names

/-- What stands between the brackets. -/
def inner (start : Run isSpace) (names : Listing isSpace (NameItem isSpace)) (stop : Run isSpace)
    (comma? : Option (Run isSpace)) : List Char :=
  start.1 ++ (names.text NameItem.text ++ (stop.1 ++ comma?.elim [] fun space => ',' :: space.1))

def text : Names → List Char
  | .star => ['*']
  | .listed names => names.text NameItem.text
  | .bracketed start names stop comma? => '(' :: inner start names stop comma? ++ [')']

/-- What the statement binds. -/
def specifiers : Names → List Specifier
  | .star => [.namespaceAs "*"]
  | .listed names => names.items.map NameItem.specifier
  | .bracketed _ names _ _ => names.items.map NameItem.specifier

end Names

/-- An import statement. -/
inductive Statement where
  /-- An import of modules. -/
  | plain (gap : Gap isBlank) (modules : Listing isBlank ModuleItem)
  /-- An import of names from a module. -/
  | selected (gap : Gap isBlank) (source : SourceName) (before behind : Gap isBlank) (names : Names)

namespace Statement

def text : Statement → List Char
  | .plain gap modules => "import".toList ++ (gap.1 ++ modules.text ModuleItem.text)
  | .selected gap source before behind names =>
    "from".toList ++ (gap.1 ++ (source.text ++ (before.1 ++ ("import".toList ++
      (behind.1 ++ names.text)))))

theorem text_plain (gap : Gap isBlank) (modules : Listing isBlank ModuleItem) :
    text (.plain gap modules) = "import".toList ++ (gap.1 ++ modules.text ModuleItem.text) := rfl

theorem text_selected (gap : Gap isBlank) (source : SourceName) (before behind : Gap isBlank)
    (names : Names) :
    text (.selected gap source before behind names) =
      "from".toList ++ (gap.1 ++ (source.text ++ (before.1 ++ ("import".toList ++
        (behind.1 ++ names.text))))) := rfl

/-- The imports of a statement that starts on `line`. -/
def imports (line : Nat) : Statement → List Import
  | .plain _ modules => modules.items.map fun i =>
    ⟨.ofList i.name.text, [.namespaceAs (.ofList i.bound)], .static, line⟩
  | .selected _ source _ _ names => [⟨.ofList source.text, names.specifiers, .static, line⟩]

end Statement

/-! ### Texts of statements -/

/-- Whether `c` may stand behind a statement on its last line: a blank, or the first character of a
line end of two. -/
def isTrail (c : Char) : Bool := isBlank c || c == '\r'

/-- A part of a text: blank lines, or a statement on lines of its own. -/
inductive Block where
  | blank (space : Run isSpace)
  | statement (indent : Run isBlank) (statement : Statement) (trail : Run isTrail)

namespace Block

def text : Block → List Char
  | .blank space => space.1
  | .statement indent s trail => indent.1 ++ (s.text ++ trail.1)

/-- The imports of a block that starts on `line`. -/
def imports (line : Nat) : Block → List Import
  | .blank _ => []
  | .statement _ s _ => s.imports line

end Block

/-- The blocks, each on lines of its own. -/
def moduleText (blocks : List Block) : List Char := joinWith ['\n'] (blocks.map Block.text)

/-- The imports of the blocks in their order, when the first one starts on `line`. -/
def importsFrom : Nat → List Block → List Import
  | _, [] => []
  | line, block :: blocks =>
    block.imports line ++ importsFrom (line + newlines block.text + 1) blocks

/-! ### Modules are read back -/

theorem isDotted_of_isWord {c : Char} (h : isWord c = true) : isDotted c = true := by
  rw [isDotted, h, Bool.true_or]

theorem isDotted_of_isBlank {c : Char} (h : isBlank c = true) : isDotted c = false := by
  rw [isBlank, Bool.or_eq_true, beq_iff_eq, beq_iff_eq] at h
  rcases h with rfl | rfl <;> decide

theorem isBlank_of_isDotted {c : Char} (h : isDotted c = true) : isBlank c = false :=
  Bool.eq_false_iff.2 fun hblank => by
    rw [isDotted_of_isBlank hblank] at h
    cases h

theorem stops_isDotted_gap (gap : Gap isBlank) {rest : List Char} :
    Stops isDotted (gap.1 ++ rest) :=
  stops_append_of_ne_nil gap.2.1 fun _ hc => isDotted_of_isBlank (of_mem_gap gap hc)

theorem IsWordText.isDotted {cs : List Char} (h : IsWordText cs) : ∀ c ∈ cs, isDotted c = true :=
  fun c hc => isDotted_of_isWord (List.all_eq_true.1 h.2 c hc)

theorem isDotted_of_mem_joinWith {segments : List (List Char)} (h : ∀ s ∈ segments, IsWordText s) :
    ∀ c ∈ joinWith ['.'] segments, isDotted c = true := by
  intro c hc
  cases segments with
  | nil => cases hc
  | cons segment segments =>
    rw [joinWith_cons, List.mem_append, List.mem_flatMap] at hc
    rcases hc with hc | ⟨s, hs, hc⟩
    · exact (h segment List.mem_cons_self).isDotted c hc
    · rcases List.mem_cons.1 hc with rfl | hc
      · decide
      · exact (h s (.tail _ hs)).isDotted c hc

namespace ModuleName

theorem segments_isWordText (m : ModuleName) : ∀ s ∈ m.root :: m.below.map (·.1), IsWordText s := by
  intro s hs
  rcases List.mem_cons.1 hs with rfl | hs
  · exact m.isWordText
  · obtain ⟨segment, -, rfl⟩ := List.mem_map.1 hs
    exact segment.2

theorem isDotted_text (m : ModuleName) : ∀ c ∈ m.text, isDotted c = true :=
  isDotted_of_mem_joinWith m.segments_isWordText

theorem exists_text_eq (m : ModuleName) : ∃ c cs, m.text = c :: cs ∧ isNameStart c = true := by
  obtain ⟨c, cs, hroot⟩ := List.exists_cons_of_ne_nil m.isWordText.1
  have hstart := m.start
  rw [hroot] at hstart
  exact ⟨c, _, by rw [text, joinWith_cons, hroot, List.cons_append], hstart⟩

/-- The first segment is what stands before the first dot. -/
theorem takeWhile_text (m : ModuleName) : m.text.takeWhile (· ≠ '.') = m.root := by
  have hroot : ∀ c ∈ m.root, decide (c ≠ '.') = true := fun c hc => by
    have hword := List.all_eq_true.1 m.isWordText.2 c hc
    refine decide_eq_true fun hpoint => ?_
    rw [hpoint] at hword
    exact absurd hword (by decide)
  rw [text, joinWith_cons]
  refine takeWhile_append_of_stops hroot ?_
  cases m.below with
  | nil => exact stops_nil
  | cons segment below => exact stops_cons.2 rfl

/-- A module name is read up to the first character that cannot stand in one. -/
theorem dottedName_text (m : ModuleName) {rest : List Char} (hrest : Stops isDotted rest) :
    dottedName (m.text ++ rest) = some (m.text, rest) := by
  obtain ⟨c, cs, htext, hc⟩ := m.exists_text_eq
  have hdotted := m.isDotted_text
  rw [htext] at hdotted ⊢
  exact takeName_append hc (fun x hx => hdotted x (.tail _ hx)) hrest

end ModuleName

/-! ### Plain imports are read back -/

/-- The text goes on with no part of a module's name or alias. -/
def EndsItem (rest : List Char) : Prop := Stops isDotted (rest.dropWhile isBlank)

theorem EndsItem.stops {rest : List Char} (h : EndsItem rest) : Stops isDotted rest := by
  cases rest with
  | nil => exact stops_nil
  | cons c rest =>
    by_cases hc : isBlank c = true
    · exact stops_cons.2 (isDotted_of_isBlank hc)
    · rwa [EndsItem, List.dropWhile_cons_of_neg hc] at h

/-- Behind the end of an item there is no alias. -/
theorem EndsItem.alias?_eq_none {rest : List Char} (h : EndsItem rest) : alias? rest = none := by
  cases rest with
  | nil => rfl
  | cons c rest =>
    by_cases hc : isBlank c = true
    · rw [EndsItem, List.dropWhile_cons_of_pos hc] at h
      have has : expect "as" (rest.dropWhile isBlank) = none := by
        cases hrest : rest.dropWhile isBlank with
        | nil => rfl
        | cons x xs =>
          rw [hrest, stops_cons] at h
          have hx : 'a' ≠ x := fun hx => by
            rw [← hx] at h
            exact absurd h (by decide)
          exact if_neg hx
      rw [alias?, expectMany, expectIf, if_pos hc]
      exact congrArg (Option.bind · _) has
    · rw [alias?, expectMany, expectIf, if_neg hc]
      rfl

theorem stops_isBlank_of_isDotted {c : Char} {cs : List Char} (h : isDotted c = true) :
    Stops isBlank (c :: cs) :=
  stops_cons.2 (isBlank_of_isDotted h)

/-- An alias is read with the gaps on both sides of its keyword. -/
theorem alias?_text (a : Alias isBlank IsWordText) {rest : List Char}
    (hrest : Stops isDotted rest) : alias? (a.text ++ rest) = some (a.name, rest) := by
  obtain ⟨c, cs, hname⟩ := List.exists_cons_of_ne_nil a.isName.1
  have hword : ∀ x ∈ c :: cs, isWord x = true := List.all_eq_true.1 (hname ▸ a.isName.2)
  have hstop : Stops isWord rest := fun x hx => (Bool.or_eq_false_iff.1 (hrest x hx)).1
  have hbefore : expectMany isBlank (a.text ++ rest) =
      some ("as".toList ++ (a.behind.1 ++ (a.name ++ rest))) := by
    rw [Alias.text, List.append_assoc, List.append_assoc, List.append_assoc]
    exact expectMany_append a.before.2.1 (fun _ => of_mem_gap a.before) (stops_cons.2 rfl)
  have hbehind : expectMany isBlank (a.behind.1 ++ (a.name ++ rest)) = some (a.name ++ rest) := by
    refine expectMany_append a.behind.2.1 (fun _ => of_mem_gap a.behind) ?_
    rw [hname]
    exact stops_isBlank_of_isDotted (isDotted_of_isWord (hword c List.mem_cons_self))
  have htake : takeName isWord isWord (a.name ++ rest) = some (a.name, rest) := by
    rw [hname]
    exact takeName_append (hword c List.mem_cons_self) (fun x hx => hword x (.tail _ hx)) hstop
  simp only [alias?, hbefore, hbehind, htake, expect_append, Option.bind_eq_bind, Option.bind_some]

/-- An item is read with its alias. -/
theorem importItem_text (i : ModuleItem) {rest : List Char} (hrest : EndsItem rest) :
    importItem (i.text ++ rest) = some (i.parts, rest) := by
  rw [ModuleItem.text, List.append_assoc, importItem, ModuleItem.parts]
  cases i.alias? with
  | none =>
    rw [aliasText, Option.elim_none, List.nil_append, i.name.dottedName_text hrest.stops]
    dsimp only
    rw [hrest.alias?_eq_none]
    rfl
  | some a =>
    have hstops : Stops isDotted (a.text ++ rest) := by
      rw [Alias.text, List.append_assoc, List.append_assoc, List.append_assoc]
      exact stops_isDotted_gap a.before
    rw [aliasText, Option.elim_some, i.name.dottedName_text hstops]
    dsimp only
    rw [alias?_text a hrest.stops]
    rfl

theorem ModuleItem.exists_text_eq (i : ModuleItem) :
    ∃ c cs, i.text = c :: cs ∧ isDotted c = true := by
  obtain ⟨c, cs, htext, -⟩ := i.name.exists_text_eq
  have hc : isDotted c = true := i.name.isDotted_text c (htext ▸ List.mem_cons_self)
  exact ⟨c, _, by rw [text, htext, List.cons_append], hc⟩

/-- The text goes on with no part of a list of modules. -/
structure EndsList (rest : List Char) : Prop where
  endsItem : EndsItem rest
  noComma : Stops (· == ',') (rest.dropWhile isBlank)

section

variable (others : List (Run isBlank × Run isBlank × ModuleItem)) {rest : List Char}

theorem dropWhile_behindComma (other : Run isBlank × Run isBlank × ModuleItem) (rest : List Char) :
    (Listing.behindComma ModuleItem.text other ++ rest).dropWhile isBlank =
      ',' :: (other.2.1.1 ++ (other.2.2.text ++ rest)) := by
  rw [Listing.behindComma, List.append_assoc, List.cons_append, List.append_assoc]
  exact dropWhile_append_of_stops (fun _ => of_mem_run other.1) (stops_cons.2 rfl)

theorem endsItem_others (hrest : EndsList rest) :
    EndsItem (others.flatMap (Listing.behindComma ModuleItem.text) ++ rest) := by
  cases others with
  | nil => exact hrest.endsItem
  | cons other others =>
    rw [EndsItem, List.flatMap_cons, List.append_assoc, dropWhile_behindComma]
    exact stops_cons.2 (by decide)

theorem importItems_of_comma {cs inner : List Char} {item : List Char × Option (List Char)}
    (hcs : cs.dropWhile isBlank = ',' :: inner)
    (hitem : importItem (inner.dropWhile isBlank) = some (item, rest)) (fuel : Nat) :
    importItems (fuel + 1) cs = (item :: (importItems fuel rest).1, (importItems fuel rest).2) := by
  rw [importItems, hcs]
  simp only [hitem]

theorem importItems_of_stops (h : Stops (· == ',') (rest.dropWhile isBlank)) (fuel : Nat) :
    importItems fuel rest = ([], rest) := by
  cases fuel with
  | zero => rfl
  | succ fuel =>
    rw [importItems]
    split
    · next inner hcomma =>
      rw [hcomma] at h
      exact absurd (stops_cons.1 h) (by simp)
    · rfl

/-- The items behind the first are read in turn, when there is fuel for each. -/
theorem importItems_text (hrest : EndsList rest) {fuel : Nat} (hfuel : others.length ≤ fuel) :
    importItems fuel (others.flatMap (Listing.behindComma ModuleItem.text) ++ rest) =
      (others.map (·.2.2.parts), rest) := by
  induction others generalizing fuel with
  | nil => exact importItems_of_stops hrest.noComma fuel
  | cons other others ih =>
    obtain ⟨fuel, rfl⟩ : ∃ n, fuel = n + 1 := Nat.exists_eq_succ_of_ne_zero (by
      rw [List.length_cons] at hfuel
      omega)
    obtain ⟨c, cs, htext, hc⟩ := other.2.2.exists_text_eq
    have hbehind : (other.2.1.1 ++ (other.2.2.text ++
        (others.flatMap (Listing.behindComma ModuleItem.text) ++ rest))).dropWhile isBlank =
          other.2.2.text ++ (others.flatMap (Listing.behindComma ModuleItem.text) ++ rest) := by
      refine dropWhile_append_of_stops (fun _ => of_mem_run other.2.1) ?_
      rw [htext]
      exact stops_isBlank_of_isDotted hc
    have hitem := importItem_text other.2.2 (endsItem_others others hrest)
    rw [← hbehind] at hitem
    rw [List.flatMap_cons, List.append_assoc,
      importItems_of_comma (dropWhile_behindComma other _) hitem,
      ih (Nat.le_of_succ_le_succ hfuel)]
    rfl

end

theorem length_le_length_flatMap {ι : Type} {f : ι → List Char} (h : ∀ i, f i ≠ []) (is : List ι) :
    is.length ≤ (is.flatMap f).length := by
  induction is with
  | nil => exact Nat.le_refl _
  | cons i is ih =>
    have hi := List.length_pos_iff.2 (h i)
    rw [List.flatMap_cons, List.length_append, List.length_cons]
    omega

/-- A plain statement at the start of a line is recognised with its modules. -/
theorem importStatement_text {before : Option Char} (hbefore : atLineStart before = true)
    (indent : Run isBlank) (gap : Gap isBlank) (modules : Listing isBlank ModuleItem)
    {rest : List Char} (hrest : EndsList rest) :
    importStatement before (indent.1 ++ ((Statement.plain gap modules).text ++ rest)) =
      some (modules.items.map (·.parts), rest) := by
  obtain ⟨c, cs, htext, hc⟩ := modules.first.exists_text_eq
  have hindent : (indent.1 ++ ((Statement.plain gap modules).text ++ rest)).dropWhile isBlank =
      "import".toList ++ (gap.1 ++ (modules.first.text ++
        (modules.others.flatMap (Listing.behindComma ModuleItem.text) ++ rest))) := by
    rw [Statement.text_plain, Listing.text, List.append_assoc, List.append_assoc, List.append_assoc]
    exact dropWhile_append_of_stops (fun _ => of_mem_run indent) (stops_cons.2 rfl)
  have hgap : expectMany isBlank (gap.1 ++ (modules.first.text ++
      (modules.others.flatMap (Listing.behindComma ModuleItem.text) ++ rest))) =
        some (modules.first.text ++
          (modules.others.flatMap (Listing.behindComma ModuleItem.text) ++ rest)) := by
    refine expectMany_append gap.2.1 (fun _ => of_mem_gap gap) ?_
    rw [htext]
    exact stops_isBlank_of_isDotted hc
  have hitem := importItem_text modules.first (endsItem_others modules.others hrest)
  have hfuel : modules.others.length ≤
      (modules.others.flatMap (Listing.behindComma ModuleItem.text) ++ rest).length := by
    rw [List.length_append]
    have := length_le_length_flatMap (f := Listing.behindComma ModuleItem.text)
      (fun other => by simp [Listing.behindComma]) modules.others
    omega
  simp only [importStatement, hbefore, hindent, hgap, hitem, expect_append, if_true,
    Option.bind_eq_bind, Option.bind_some, importItems_text modules.others hrest hfuel]
  simp [Listing.items]

end DeadCode.Python
