import DeadCode.Script.Grammar.Class
import DeadCode.Script.Grammar.Markup

/-!
# DeadCode.Script.Grammar.Expression

Expressions. Operators are read from left to right without regard to how strongly they bind: for
imports and exports it matters only whether an expression is a call, a literal or a name *by
itself*, and that a chain of operands is not.
-/

namespace DeadCode.Script

open Parse Text

variable {script : List Char}

/-! ### Comments in the style of markup -/

/-- Pass over comments that start with `<!--` or `-->` and go to the end of the line. They are only
recognised where an operand or a statement may start. -/
def passMarkupComments : Nat → State script → State script
  | 0, s => s
  | n + 1, s =>
    if startsWith "<!--".toList s.here || startsWith "-->".toList s.here then
      passMarkupComments n (.within .lineComment s.here s.here_suffix s.token.left s.lastLeft)
    else s

/-- Pass over the comments in the style of markup that stand here. -/
def passComments : Parse script Unit := modify fun s => passMarkupComments s.left s

/-! ### Regular expressions -/

/-- The length of a regular expression literal behind its opening slash, without its flags. -/
def regexLength : Bool → List Char → Nat
  | _, [] => 0
  | inClass, '\\' :: _ :: cs => regexLength inClass cs + 2
  | false, '/' :: _ => 1
  | _, '[' :: cs => regexLength true cs + 1
  | _, ']' :: cs => regexLength false cs + 1
  | inClass, _ :: cs => regexLength inClass cs + 1

/-- Pass over a regular expression literal. -/
def regex : Parse script (Tree script) := do
  let s ← get
  let n := regexLength false (s.here.drop 1) + 1
  let flags := ((s.here.drop n).takeWhile isNamePart).length
  passHere (n + flags)
  return .group []

namespace Grammar

variable (g : Grammar script)

/-! ### Arrow functions -/

/-- An arrow and the body of an arrow function. -/
def arrowBody (limits : Limits) : Parse script (Tree script) := do
  ensure (!(← peek).gap.newline)
  expectMark "=>"
  if ← atMark "\x7b" then g.read .block else g.read (.assignment limits)

/-- An arrow function, without the word `async`. -/
def arrow (limits : Limits) : Parse script (Tree script) := do
  if isVariable (← peek) && isMark (← peekNext) "=>" then
    let name ← anyName
    return .group [.name name, ← g.arrowBody limits]
  let generic ← g.typeParameters?
  let parameters ← g.read .parameters
  let type ← if limits.noArrowType then pure [] else g.typing?
  return .group (generic ++ parameters :: type ++ [← g.arrowBody limits])

/-- An arrow function with or without the word `async`, if one stands here. -/
def arrow? (limits : Limits) : Parse script (Option (Tree script)) := do
  let t ← peek
  let next ← peekNext
  let startsHere (t : Token) : Bool :=
    isMark t "(" || (g.dialect.types && isMark t "<")
  if isWordToken t "async" && !next.gap.newline && (isVariable next || startsHere next) then
    let asynchronous ← attempt do
      let _ ← advance
      g.arrow limits
    if asynchronous.isSome then return asynchronous
  if startsHere t || (isVariable t && isMark next "=>") then attempt (g.arrow limits)
  else return none

/-! ### Objects and arrays -/

/-- A property of an object literal. -/
def property : Parse script (Tree script) := do
  if ← eatMark "..." then return .group [← g.read (.assignment {})]
  memberModifiers ["get", "set", "async"]
  let key ← g.memberKey
  if (← atMark "(") || (g.dialect.types && (← atMark "<")) then
    return .group (key ++ (← g.signature) ++ [← g.read .block])
  if ← eatOneMark [":", "="] then
    return .group (key ++ [← g.read (.assignment {})])
  return .group key

/-- An element of an array literal, possibly a hole. -/
def arrayElement : Parse script (Tree script) := do
  if ← atMark "," then return .group []
  if ← eatMark "..." then return .group [← g.read (.assignment {})]
  g.read (.assignment {})

/-! ### Operands -/

/-- An object literal. -/
def object : Parse script (Tree script) := do
  expectMark "\x7b"
  return .group (← commaList "\x7d" g.property)

/-- A class as an expression, behind its decorators and the word `class`. -/
def classExpression (operand : Parse script (Tree script)) : Parse script (Tree script) := do
  let (_, parts) ← g.classRest operand
  return .group parts

/-- An expression in round brackets. -/
def bracketed : Parse script (Tree script) := do
  expectMark "("
  let tree ← g.read (.expression {})
  expectMark ")"
  return .group [tree]

/-- The word `import` in an expression: the import of a module while the program runs, or its own
properties. -/
def importOperand : Parse script (Tree script) := do
  let _ ← advance
  if ← eatMark "." then
    let _ ← advance
    return .group []
  ensure (← atMark "(")
  return .importWord

/-- Words that are operands and no names. -/
def constantWords : List String := ["this", "super", "null", "true", "false", "undefined"]

/-- An operand that starts with a word. -/
def wordOperand (base : Parse script (Tree script)) : Parse script (Tree script) := do
  let t ← peek
  let next ← peekNext
  match t.text with
  | "function" => let _ ← advance; g.functionExpression
  | "class" => let _ ← advance; g.classExpression base
  | "import" => importOperand
  | "async" =>
    if isWordToken next "function" && !next.gap.newline then
      let _ ← advance
      let _ ← advance
      g.functionExpression
    else
      let _ ← advance
      return .name t.text
  | word =>
    let _ ← advance
    if constantWords.contains word then return .group []
    ensure (isVariable t)
    return .name word

/-- An operand that starts with a mark. -/
def markOperand (base : Parse script (Tree script)) : Parse script (Tree script) := do
  let t ← peek
  match t.text with
  | "(" => g.bracketed
  | "[" => let _ ← advance; return .group (← commaList "]" g.arrayElement)
  | "\x7b" => g.object
  | "`" => template (g.read (.expression {}))
  | "/" => regex
  | "/=" => regex
  | "<" =>
    ensure g.dialect.markup
    let tree ← g.read .element
    let _ ← advance
    return tree
  | "@" =>
    let decorators ← g.decorators
    expectWord "class"
    return .group (decorators ++ [← g.classExpression base])
  | _ => failure

/-- An operand without operators before or behind it; `base` reads the base of a class. -/
def primary (base : Parse script (Tree script)) : Parse script (Tree script) := do
  let s ← get
  match s.token.kind with
  | .name => g.wordOperand base
  | .number => let _ ← advance; return .group []
  | .privateName => let _ ← advance; return .group []
  | .string => let _ ← advance; return .literal s.quoted
  | .mark => g.markOperand base
  | .finish => failure

/-! ### What follows an operand -/

/-- Type arguments of a call, or of a function that is not called. They are taken for a comparison
when an operand follows. -/
def callTypes : Parse script (List (Tree script)) := do
  ensure g.dialect.types
  let types ← g.typeArguments
  let t ← peek
  ensure (isMark t "(" || isMark t "`" || !startsOperand t || t.gap.newline)
  return types

/-- A member, an index, a template or, unless `noCall`, a call behind `whole`, which starts at
`start`. -/
def access (noCall : Bool) (start : Nat) (whole : Tree script) :
    Parse script (Option (Tree script)) := do
  let t ← peek
  if t.kind != .mark then return none
  match t.text with
  | "." =>
    let _ ← advance
    ensure (isMemberName (← advance))
    return some (.group [whole])
  | "?." =>
    if noCall then return none
    let _ ← advance
    let types ← if g.dialect.types && (← atMark "<") then g.typeArguments else pure []
    if ← atMark "(" then
      return some (.call start whole types (← g.arguments))
    if ← eatMark "[" then
      let index ← g.read (.expression {})
      expectMark "]"
      return some (.group [whole, index])
    if ← atMark "`" then return some (.group [whole, ← template (g.read (.expression {}))])
    ensure (isMemberName (← advance))
    return some (.group [whole])
  | "[" =>
    let _ ← advance
    let index ← g.read (.expression {})
    expectMark "]"
    return some (.group [whole, index])
  | "`" => return some (.group [whole, ← template (g.read (.expression {}))])
  | "(" => if noCall then return none else return some (.call start whole [] (← g.arguments))
  | "!" =>
    if g.dialect.types && !t.gap.newline then
      let _ ← advance
      return some (.group [whole])
    return none
  | "<" =>
    if noCall then return none
    match ← attempt g.callTypes with
    | some types =>
      if ← atMark "(" then return some (.call start whole types (← g.arguments))
      return some (.group (whole :: types))
    | none => return none
  | _ => return none

/-- What follows an operand, taken together with it. -/
def accesses (noCall : Bool) (start : Nat) : Nat → Tree script → Parse script (Tree script)
  | 0, whole => return whole
  | n + 1, whole => do
    match ← g.access noCall start whole with
    | some whole => accesses noCall start n whole
    | none => return whole

/-- The class behind the word `new`, with its arguments. -/
def construction (base : Parse script (Tree script)) : Nat → Parse script (Tree script)
  | 0 => failure
  | n + 1 => do
    expectWord "new"
    if ← eatMark "." then
      let _ ← advance
      return .group []
    let start ← get
    let whole ←
      if ← atWord "new" then construction base n
      else g.accesses true start.token.left (start.left + 2) (← g.primary base)
    let types ← if g.dialect.types then attempt g.typeArguments else pure none
    let arguments ← if ← atMark "(" then g.arguments else pure []
    return .group (whole :: types.getD [] ++ arguments)

/-- An operand with all that follows it, without operators. -/
def member (base : Parse script (Tree script)) : Parse script (Tree script) := do
  let start ← get
  let whole ←
    if start.token.kind == .name && start.token.text == "new" then
      g.construction base (start.left + 1)
    else g.primary base
  let whole ← g.accesses false start.token.left (start.left + 2) whole
  let t ← peek
  if (isMark t "++" || isMark t "--") && !t.gap.newline then
    let _ ← advance
    return .group [whole]
  return whole

/-- A type in angle brackets before an operand, which is taken to be of that type. -/
def assertion (limits : Limits) : Parse script (Tree script) := do
  let types ← g.typeArguments
  return .group (types ++ [← g.read (.operand limits)])

/-- Words that are operators before an operand. -/
def prefixWords : List String := ["typeof", "void", "delete", "await"]

/-- Marks that are operators before an operand. -/
def prefixMarks : List String := ["!", "~", "+", "-", "++", "--"]

/-- An operand with the operators before it and all that follows it. -/
def operand (limits : Limits) : Parse script (Tree script) := do
  passComments
  let t ← peek
  let base : Parse script (Tree script) := g.read (.operand {})
  match t.kind with
  | .mark =>
    if prefixMarks.contains t.text then
      let _ ← advance
      return .group [← g.read (.operand limits)]
    if t.text == "<" && g.dialect.types && !g.dialect.markup then g.assertion limits
    else g.member base
  | .name =>
    let reserved := reservedWords.contains t.text
    if prefixWords.contains t.text && (reserved || startsOperand (← peekNext)) then
      let _ ← advance
      return .group [← g.read (.operand limits)]
    g.member base
  | _ => g.member base

/-! ### Operators -/

/-- Operators between two operands. The mark `>` starts further ones. -/
def infixMarks : List String := [
  "==", "===", "!=", "!==", "<", "<=", "<<", "+", "-", "*", "**", "/", "%", "&", "&&", "|", "||",
  "^", "??"
]

/-- Operators that assign. -/
def assignmentMarks : List String := [
  "=", "+=", "-=", "*=", "**=", "/=", "%=", "<<=", "&=", "&&=", "|=", "||=", "^=", "??="
]

/-- The branches of a condition, behind its question mark. An arrow function in the first branch may
take the colon for its own; it is then read again without. -/
def branches (limits : Limits) : Parse script (List (Tree script)) := do
  let withLimits (inner : Limits) : Parse script (List (Tree script)) := do
    let yes ← g.read (.assignment inner)
    expectMark ":"
    let no ← g.read (.assignment limits)
    return [yes, no]
  if !g.dialect.types then return ← withLimits {}
  match ← attempt (withLimits {}) with
  | some trees => return trees
  | none => withLimits { noArrowType := true }

/-- An operator and what it is applied to, if one stands here. -/
def operation (limits : Limits) : Parse script (Option (List (Tree script))) := do
  let t ← peek
  match t.kind with
  | .mark =>
    if t.text == "?" then
      let _ ← advance
      return some (← g.branches limits)
    if assignmentMarks.contains t.text then
      let _ ← advance
      return some [← g.read (.assignment limits)]
    if infixMarks.contains t.text then
      let _ ← advance
      return some [← g.read (.operand limits)]
    if t.text == ">" then
      let closers ← many do
        if ← atMark ">" then return some (← advance) else return none
      let equals ← eatMark "="
      if equals && closers.length > 1 then return some [← g.read (.assignment limits)]
      return some [← g.read (.operand limits)]
    return none
  | .name =>
    if t.text == "instanceof" || (t.text == "in" && !limits.noIn) then
      let _ ← advance
      return some [← g.read (.operand limits)]
    if g.dialect.types && (t.text == "as" || t.text == "satisfies") && !t.gap.newline then
      let _ ← advance
      return some [← g.read .type]
    return none
  | _ => return none

/-- The operand of `yield`, behind the word. -/
def yielded (limits : Limits) : Parse script (Tree script) := do
  let starred ← eatMark "*"
  let t ← peek
  if starred || (startsOperand t && !t.gap.newline) then
    return .group [← g.read (.assignment limits)]
  return .group []

/-- An expression without commas. -/
def assignment (limits : Limits) : Parse script (Tree script) := do
  passComments
  let next ← peekNext
  if ← atWord "yield" then
    let goesOn := startsOperand next || isMark next "*" || isMark next ";" || isMark next ")"
    if goesOn then
      let _ ← advance
      return ← g.yielded limits
  match ← g.arrow? limits with
  | some tree => return tree
  | none =>
    let first ← g.read (.operand limits)
    let others ← many (g.operation limits)
    match others with
    | [] => return first
    | others => return .group (first :: others.flatten)

/-- An expression, possibly of several with commas between them. -/
def expression (limits : Limits) : Parse script (Tree script) := do
  let first ← g.read (.assignment limits)
  let others ← many do
    if ← eatMark "," then return some (← g.read (.assignment limits)) else return none
  match others with
  | [] => return first
  | others => return .group (first :: others)

end Grammar

end DeadCode.Script
