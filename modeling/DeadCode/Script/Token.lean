import DeadCode.Script.Quoted
import DeadCode.Text.Space

/-!
# DeadCode.Script.Token

Tokens of scripts. A token is taken off the front of the text, after blank space and comments. The
text of templates, regular expressions and markup is no matter of tokens: the grammar reads it from
the characters where it expects it (`State.here`, `State.rest`). A state of reading belongs to one
script: its texts are ends of the script, and its literals stand there.

Every `>` is a token of its own, so that nested type arguments close one by one.
-/

namespace DeadCode.Script

open Text

/-! ### Characters -/

/-- Whether `c` is blank space between tokens. -/
def isGap (c : Char) : Bool := isSpace c || c == '\ufeff' || c == '\u2060' || c == '\u200b'

/-- Whether `c` ends a line. -/
def isLineEnd (c : Char) : Bool := c == '\n' || c == '\r' || c == '\u2028' || c == '\u2029'

/-- The marks, none of which is part of a name. -/
def marks : List Char := ":;`\"'@#.,|^&<=>+-*/\\%?!~()[]\x7b\x7d".toList

/-- Whether a name may go on with `c`: everything but blank space, control characters and marks. -/
def isNamePart (c : Char) : Bool := c.toNat ≥ 0x20 && !isGap c && !marks.contains c

/-- Whether a name may start with `c`. -/
def isNameStart (c : Char) : Bool := isNamePart c && !c.isDigit

/-! ### Gaps -/

/-- What stands between two tokens. -/
structure Gap where
  newline : Bool := false
  comment : Bool := false

/-- The gap with one more character. -/
def Gap.note (gap : Gap) (c : Char) : Gap :=
  if isLineEnd c then { gap with newline := true } else gap

/-- Where in a gap the text stands. -/
inductive GapMode where
  | blank
  | lineComment
  | blockComment

/-- Pass over blank space and comments; `left` is the length of the text. -/
def skipGap : GapMode → Gap → Nat → List Char → Gap × Nat × List Char
  | _, gap, left, [] => (gap, left, [])
  | .blank, gap, left, '/' :: '/' :: cs =>
    skipGap .lineComment { gap with comment := true } (left - 2) cs
  | .blank, gap, left, '/' :: '*' :: cs =>
    skipGap .blockComment { gap with comment := true } (left - 2) cs
  | .blank, gap, left, c :: cs =>
    if isGap c then skipGap .blank (gap.note c) (left - 1) cs else (gap, left, c :: cs)
  | .lineComment, gap, left, c :: cs =>
    if isLineEnd c then skipGap .blank (gap.note c) (left - 1) cs
    else skipGap .lineComment gap (left - 1) cs
  | .blockComment, gap, left, '*' :: '/' :: cs => skipGap .blank gap (left - 2) cs
  | .blockComment, gap, left, c :: cs => skipGap .blockComment (gap.note c) (left - 1) cs

theorem skipGap_suffix (mode : GapMode) (gap : Gap) (left : Nat) (cs : List Char) :
    (skipGap mode gap left cs).2.2 <:+ cs := by
  fun_induction skipGap mode gap left cs with
  | case1 => exact List.suffix_rfl
  | case2 _ _ cs ih => exact ih.trans ((List.suffix_cons _ _).trans (List.suffix_cons _ _))
  | case3 _ _ cs ih => exact ih.trans ((List.suffix_cons _ _).trans (List.suffix_cons _ _))
  | case4 _ _ c cs _ _ _ ih => exact ih.trans (List.suffix_cons _ _)
  | case5 => exact List.suffix_rfl
  | case6 _ _ c cs _ ih => exact ih.trans (List.suffix_cons _ _)
  | case7 _ _ c cs _ ih => exact ih.trans (List.suffix_cons _ _)
  | case8 _ _ cs ih => exact ih.trans ((List.suffix_cons _ _).trans (List.suffix_cons _ _))
  | case9 _ _ c cs _ ih => exact ih.trans (List.suffix_cons _ _)

/-! ### Tokens -/

/-- The sorts of tokens. -/
inductive TokenKind where
  /-- A name or a keyword. -/
  | name
  /-- A name behind `#`. -/
  | privateName
  | number
  /-- A string literal. -/
  | string
  /-- A mark, possibly of several characters. -/
  | mark
  /-- The end of the text. -/
  | finish
  deriving DecidableEq

/-- A token with the gap before it. -/
structure Token where
  kind : TokenKind
  text : String
  /-- The number of characters from the token's start to the end of the text. -/
  left : Nat
  gap : Gap

/-- The marks of more than one character, a longer one before its beginnings. -/
def longMarks : List (List Char) := [
  "...", "===", "!==", "**=", "<<=", "&&=", "||=", "??=", "=>", "==", "!=", "<=", "<<", "++", "--",
  "+=", "-=", "**", "*=", "/=", "%=", "&&", "&=", "||", "|=", "^=", "??", "?."
].map String.toList

/-- The rest of a name. An escape of a character is part of the name as it is written; `inBraces`
tells that one with braces is open. -/
def takeNameRest (inBraces : Bool) : List Char → List Char × List Char
  | [] => ([], [])
  | '\\' :: 'u' :: '\x7b' :: cs =>
    let (name, rest) := takeNameRest true cs
    ('\\' :: 'u' :: '\x7b' :: name, rest)
  | '\\' :: 'u' :: cs =>
    let (name, rest) := takeNameRest false cs
    ('\\' :: 'u' :: name, rest)
  | c :: cs =>
    if isNamePart c then
      let (name, rest) := takeNameRest inBraces cs
      (c :: name, rest)
    else if inBraces && c == '\x7d' then
      let (name, rest) := takeNameRest false cs
      (c :: name, rest)
    else ([], c :: cs)

theorem takeNameRest_append (inBraces : Bool) (cs : List Char) :
    (takeNameRest inBraces cs).1 ++ (takeNameRest inBraces cs).2 = cs := by
  fun_induction takeNameRest inBraces cs <;> simp_all

/-- The rest of a string from the end of a line on. It goes on over blank space and comments to its
closing quote; without one, the string ends with the line. -/
def takeStringEnd (quote : Char) (cs : List Char) : List Char × List Char :=
  let after := (skipGap .blank {} 0 cs).2.2
  let n := if after.head? = some quote then cs.length - after.length + 1 else 0
  (cs.take n, cs.drop n)

/-- The rest of a string up to and with its closing quote. A backslash takes the character behind it
along, and with a carriage return or a question mark the line feed behind that. -/
def takeStringRest (quote : Char) : List Char → List Char × List Char
  | [] => ([], [])
  | '\\' :: '\r' :: '\n' :: cs =>
    let (text, rest) := takeStringRest quote cs
    ('\\' :: '\r' :: '\n' :: text, rest)
  | '\\' :: '?' :: '\n' :: cs =>
    let (text, rest) := takeStringRest quote cs
    ('\\' :: '?' :: '\n' :: text, rest)
  | '\\' :: c :: cs =>
    let (text, rest) := takeStringRest quote cs
    ('\\' :: c :: text, rest)
  | c :: cs =>
    if c = quote then ([c], cs)
    else if c = '\n' ∨ c = '\r' then takeStringEnd quote (c :: cs)
    else
      let (text, rest) := takeStringRest quote cs
      (c :: text, rest)

theorem takeStringRest_append (quote : Char) (cs : List Char) :
    (takeStringRest quote cs).1 ++ (takeStringRest quote cs).2 = cs := by
  fun_induction takeStringRest quote cs <;> simp_all [takeStringEnd]

/-- The rest of a number; a sign belongs to it behind the exponent mark of a decimal number. -/
def takeNumberRest (decimal : Bool) : List Char → List Char × List Char
  | [] => ([], [])
  | c :: s :: d :: cs =>
    if decimal && (c == 'e' || c == 'E') && (s == '+' || s == '-') && d.isDigit then
      let (text, rest) := takeNumberRest decimal cs
      (c :: s :: d :: text, rest)
    else if isNamePart c || c == '.' then
      let (text, rest) := takeNumberRest decimal (s :: d :: cs)
      (c :: text, rest)
    else ([], c :: s :: d :: cs)
  | c :: cs =>
    if isNamePart c || c == '.' then
      let (text, rest) := takeNumberRest decimal cs
      (c :: text, rest)
    else ([], c :: cs)

theorem takeNumberRest_append (decimal : Bool) (cs : List Char) :
    (takeNumberRest decimal cs).1 ++ (takeNumberRest decimal cs).2 = cs := by
  fun_induction takeNumberRest decimal cs <;> simp_all

/-- The mark at the start of the text. `?.` before a digit is the `?` of a condition. -/
def takeMark (cs : List Char) : List Char :=
  match longMarks.find? (startsWith · cs) with
  | some ['?', '.'] => if ((cs.drop 2).head?).any Char.isDigit then ['?'] else ['?', '.']
  | some mark => mark
  | none => cs.take 1

/-- The token at the start of the text, and the text behind it. -/
def takeToken (cs : List Char) : TokenKind × List Char × List Char :=
  match cs with
  | [] => (.finish, [], [])
  | '#' :: rest =>
    let (name, rest) := takeNameRest false rest
    (.privateName, '#' :: name, rest)
  | '"' :: rest =>
    let (text, rest) := takeStringRest '"' rest
    (.string, '"' :: text, rest)
  | '\'' :: rest =>
    let (text, rest) := takeStringRest '\'' rest
    (.string, '\'' :: text, rest)
  | c :: rest =>
    if c.isDigit || (c == '.' && rest.head?.any Char.isDigit) then
      let decimal := !(c == '0' && (rest.head?.any fun x => "xXoObB".toList.contains x))
      let (text, rest) := takeNumberRest decimal rest
      (.number, c :: text, rest)
    else if isNameStart c || startsWith ['\\', 'u'] cs then
      let (name, rest) := takeNameRest false cs
      (.name, name, rest)
    else
      let mark := takeMark cs
      (.mark, mark, cs.drop mark.length)

theorem takeToken_suffix (cs : List Char) : (takeToken cs).2.2 <:+ cs := by
  unfold takeToken
  split
  · exact List.suffix_rfl
  · exact .trans ⟨_, takeNameRest_append false _⟩ (List.suffix_cons _ _)
  · exact .trans ⟨_, takeStringRest_append _ _⟩ (List.suffix_cons _ _)
  · exact .trans ⟨_, takeStringRest_append _ _⟩ (List.suffix_cons _ _)
  · split
    · exact .trans ⟨_, takeNumberRest_append _ _⟩ (List.suffix_cons _ _)
    · split
      · exact ⟨_, takeNameRest_append false _⟩
      · exact List.drop_suffix _ _

/-- A string literal opens with a quote, and stands in the text as it is taken. -/
theorem takeToken_string {cs : List Char} (h : (takeToken cs).1 = .string) :
    (takeToken cs).2.1.head?.any isQuote = true ∧ (takeToken cs).2.1 <:+: cs := by
  unfold takeToken at h ⊢
  split at h
  · cases h
  · cases h
  · exact ⟨rfl, [], _, congrArg ('"' :: ·) (takeStringRest_append _ _)⟩
  · exact ⟨rfl, [], _, congrArg ('\'' :: ·) (takeStringRest_append _ _)⟩
  · split at h
    · cases h
    · split at h
      · cases h
      · cases h

/-! ### States of reading -/

/-- Where reading of a script stands: a token with the text from its start on and the text behind
it. -/
structure State (script : List Char) where
  token : Token
  /-- The token as a literal, if it is a string that says anything. -/
  quoted : Option (Quoted script)
  here : List Char
  rest : List Char
  /-- The length of `rest`. -/
  left : Nat
  /-- The number of characters from the end of the token before to the end of the text. -/
  lastLeft : Nat
  here_suffix : here <:+ script
  rest_suffix : rest <:+ script

variable {script : List Char}

/-- Reading that stands at the first token of `cs`, whose length is `left`; the text starts in a gap
of the given mode. -/
def State.within (mode : GapMode) (cs : List Char) (h : cs <:+ script) (left lastLeft : Nat) :
    State script :=
  let passed := skipGap mode {} left cs
  let here := passed.2.2
  let taken := takeToken here
  have hhere : here <:+ script := (skipGap_suffix mode {} left cs).trans h
  { token := ⟨taken.1, .ofList taken.2.1, passed.2.1, passed.1⟩
    quoted :=
      if hstring : taken.1 = .string then
        have htaken := takeToken_string hstring
        Quoted.ofLiteral? taken.2.1 htaken.1 (htaken.2.trans hhere.isInfix)
      else none
    here
    rest := taken.2.2
    left := passed.2.1 - taken.2.1.length
    lastLeft
    here_suffix := hhere
    rest_suffix := (takeToken_suffix here).trans hhere }

/-- Reading that stands at the first token of `cs`, whose length is `left`. -/
def State.ofText (cs : List Char) (h : cs <:+ script) (left lastLeft : Nat) : State script :=
  .within .blank cs h left lastLeft

/-- Reading that stands at the next token. -/
def State.next (s : State script) : State script := .ofText s.rest s.rest_suffix s.left s.left

/-- Reading at the start of a script. A first line that starts with `#!` is a comment. -/
def State.start (script : List Char) : State script :=
  let mode := if startsWith ['#', '!'] script then GapMode.lineComment else .blank
  .within mode script List.suffix_rfl script.length script.length

end DeadCode.Script
