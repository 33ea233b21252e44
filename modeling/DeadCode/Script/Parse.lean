import DeadCode.Script.Dialect
import DeadCode.Script.Token
import DeadCode.Script.Tree

/-!
# DeadCode.Script.Parse

The steps that the grammar of scripts is made of. A `Parse` reads from a `State` and may fail, in
which case the reading stands where it stood. It belongs to the script that it reads, so that the
literals in its results are known to stand there. The grammar is written in open recursion: a
production is given a `Grammar` that reads any `Goal`, and `DeadCode.Script.Program` closes the
loop.
-/

namespace DeadCode.Script

/-- A step of reading a script that may fail. -/
abbrev Parse (script : List Char) := StateT (State script) Option

/-! ### Goals -/

/-- What an expression may not contain at its top level, because it would be taken for something
that follows the expression. -/
structure Limits where
  /-- No `in`: the expression starts a loop over keys. -/
  noIn : Bool := false
  /-- No type behind the parameters of an arrow function: its colon belongs to a condition. -/
  noArrowType : Bool := false

/-- The recursive phrases of the grammar. -/
inductive Goal where
  | statement
  | block
  | expression (limits : Limits)
  | assignment (limits : Limits)
  | operand (limits : Limits)
  | pattern
  | parameters
  | type
  /-- A markup element; reading stops at the `>` that ends it. -/
  | element

/-- A dialect, and how each goal is read. -/
structure Grammar (script : List Char) where
  dialect : Dialect
  read : Goal → Parse script (Tree script)

namespace Parse

variable {script : List Char} {α : Type}

/-! ### Tokens -/

/-- The token at which reading stands. -/
def peek : Parse script Token := do return (← get).token

/-- The token behind the one at which reading stands. -/
def peekNext : Parse script Token := do return (← get).next.token

/-- Pass over a token. -/
def advance : Parse script Token := do
  let s ← get
  set s.next
  return s.token

/-- Whether the token is this mark. -/
def isMark (t : Token) (mark : String) : Bool := t.kind == .mark && t.text == mark

/-- Whether the token is this word. -/
def isWordToken (t : Token) (word : String) : Bool := t.kind == .name && t.text == word

/-- Whether reading stands at this mark. -/
def atMark (mark : String) : Parse script Bool := do return isMark (← peek) mark

/-- Whether reading stands at this word. -/
def atWord (word : String) : Parse script Bool := do return isWordToken (← peek) word

/-- Pass over this mark if reading stands at it. -/
def eatMark (mark : String) : Parse script Bool := do
  if ← atMark mark then
    let _ ← advance
    return true
  return false

/-- Pass over this word if reading stands at it. -/
def eatWord (word : String) : Parse script Bool := do
  if ← atWord word then
    let _ ← advance
    return true
  return false

/-- Pass over one of these marks if reading stands at it. -/
def eatOneMark (marks : List String) : Parse script Bool := do
  let t ← peek
  if t.kind == .mark && marks.contains t.text then
    let _ ← advance
    return true
  return false

/-- Go on only if the condition holds. -/
def ensure (condition : Bool) : Parse script Unit := if condition then pure () else failure

/-- Pass over this mark. -/
def expectMark (mark : String) : Parse script Unit := do ensure (← eatMark mark)

/-- Pass over this word. -/
def expectWord (word : String) : Parse script Unit := do ensure (← eatWord word)

/-- The text of the token, which must be a name. -/
def anyName : Parse script String := do
  let t ← advance
  ensure (t.kind == .name)
  return t.text

/-! ### Choice and repetition -/

/-- The result of a step, or none if it fails. -/
def attempt (p : Parse script α) : Parse script (Option α) := fun s =>
  match p s with
  | some (a, s) => some (some a, s)
  | none => some (none, s)

/-- The result of a step when it is wanted. -/
def when? (wanted : Bool) (p : Parse script α) : Parse script (Option α) :=
  if wanted then some <$> p else pure none

/-- The results of a step until it gives none, at most `n` of them. -/
def manyUpTo (step : Parse script (Option α)) : Nat → Parse script (List α)
  | 0 => pure []
  | n + 1 => do
    match ← step with
    | some a => return a :: (← manyUpTo step n)
    | none => return []

/-- The results of a step until it gives none. A step that gives a result passes over a character or
more, so the length of the text is bound enough. -/
def many (step : Parse script (Option α)) : Parse script (List α) := do
  let s ← get
  manyUpTo step (s.left + 2)

/-- Items up to the mark `close`, with commas between them; a comma may stand before `close`. The
mark is passed over. -/
def commaList (close : String) (item : Parse script α) : Parse script (List α) := do
  let items ← many do
    if ← atMark close then return none
    let a ← item
    if !(← atMark close) then expectMark ","
    return some a
  expectMark close
  return items

/-! ### Characters -/

/-- Go on reading at the text `cs`, whose length is `left`. -/
def resume (cs : List Char) (h : cs <:+ script) (left : Nat) : Parse script Unit :=
  set (State.ofText cs h left left)

/-- Pass over `n` characters from the start of the token on. -/
def passHere (n : Nat) : Parse script Unit := do
  let s ← get
  resume (s.here.drop n) ((List.drop_suffix n s.here).trans s.here_suffix) (s.token.left - n)

/-- Pass over the token and `n` characters behind it. -/
def passBehind (n : Nat) : Parse script Unit := do
  let s ← get
  resume (s.rest.drop n) ((List.drop_suffix n s.rest).trans s.rest_suffix) (s.left - n)

/-- The text between a place and the end of the token last passed over. -/
def textSince (start : State script) : Parse script (List Char) := do
  return start.here.take (start.token.left - (← get).lastLeft)

/-- The literal between a quote and the end of the token last passed over. -/
def literalSince (start : State script) {quote : Char} {cs : List Char}
    (hhere : start.here = quote :: cs) (hquote : isQuote quote = true) :
    Parse script (Option (Quoted script)) := do
  let length := start.token.left - (← get).lastLeft
  let literal := quote :: cs.take (length - 1)
  have hstands : literal <+: start.here :=
    hhere ▸ List.cons_prefix_cons.2 ⟨rfl, List.take_prefix ..⟩
  return Quoted.ofLiteral? literal hquote (hstands.isInfix.trans start.here_suffix.isInfix)

end Parse

/-! ### Kinds of words -/

/-- The words that are never names of variables. -/
def reservedWords : List String := [
  "break", "case", "catch", "class", "const", "continue", "debugger", "default", "delete", "do",
  "else", "enum", "export", "extends", "finally", "for", "function", "if", "import", "in",
  "instanceof", "new", "return", "super", "switch", "this", "throw", "try", "typeof", "var", "void",
  "while", "with", "null", "true", "false"
]

/-- Whether the token may be the name of a variable. -/
def isVariable (t : Token) : Bool := t.kind == .name && !reservedWords.contains t.text

/-- Whether the token may be the name of a member. -/
def isMemberName (t : Token) : Bool := t.kind == .name || t.kind == .privateName

/-- Whether a member of an object or a class may start with the token: a name, a literal or a name
in brackets. -/
def startsKey (t : Token) : Bool :=
  t.kind == .name || t.kind == .privateName || t.kind == .string || t.kind == .number ||
    Parse.isMark t "["

/-- The words that stand behind an operand and go on with what it is part of. -/
def followingWords : List String :=
  ["in", "instanceof", "as", "satisfies", "extends", "implements"]

/-- Whether an operand may start with the token. -/
def startsOperand (t : Token) : Bool :=
  match t.kind with
  | .name => !followingWords.contains t.text
  | .privateName | .number | .string => true
  | .mark =>
    ["(", "[", "\x7b", "`", "!", "~", "+", "-", "++", "--", "/", "/=", "<", "@"].contains t.text
  | .finish => false

end DeadCode.Script
