import DeadCode.Script.Grammar.Type

/-!
# DeadCode.Script.Grammar.Markup

Markup elements in expressions. The text between tags and the strings of attributes are taken as
they are: quotes, slashes and backslashes mean nothing in them.
-/

namespace DeadCode.Script

open Parse Text

/-- Whether the name of an element or an attribute may go on with `c`. -/
def isMarkupName (c : Char) : Bool := isNamePart c || c == '-' || c == ':' || c == '.'

variable {script : List Char}

/-- Pass over the name of an element or an attribute. -/
def markupName : Parse script (List Char) := do
  let s ← get
  ensure (s.token.kind == .name)
  let name := s.here.takeWhile isMarkupName
  passHere name.length
  return name

/-- The variables that the name of an element refers to: the object of a member, or both parts of a
name with a colon. -/
def elementNames (name : List Char) : List (Tree script) :=
  (splitOn ':' (name.takeWhile (· ≠ '.'))).map fun part => .name (.ofList part)

/-- Pass over the string of an attribute. -/
def markupString : Parse script Unit := do
  let s ← get
  match s.here with
  | quote :: cs =>
    ensure (quote == '"' || quote == '\'')
    let inner := cs.takeWhile (· ≠ quote)
    passHere (inner.length + 2)
  | [] => failure

namespace Grammar

variable (g : Grammar script)

/-- An expression in braces, possibly spread or missing; reading stops at the closing brace. -/
def braced : Parse script (Tree script) := do
  expectMark "\x7b"
  if ← atMark "\x7d" then return .group []
  let _ ← eatMark "..."
  let tree ← g.read (.expression {})
  ensure (← atMark "\x7d")
  return .group [tree]

/-- An attribute of an element. -/
def elementAttribute : Parse script (Tree script) := do
  if ← atMark "\x7b" then
    let tree ← g.braced
    let _ ← advance
    return tree
  let _ ← markupName
  if !(← eatMark "=") then return .group []
  if ← atMark "\x7b" then
    let tree ← g.braced
    let _ ← advance
    return tree
  if ← atMark "<" then
    let tree ← g.read .element
    let _ ← advance
    return tree
  markupString
  return .group []

/-- What comes next inside an element, behind the text that stands there: an expression or an
element, or none at the closing tag or the end of the text. Reading is left at the `>` or the brace
that ends it. -/
def child : Parse script (Option (Tree script)) := do
  let s ← get
  let text := s.rest.takeWhile fun c => c != '<' && c != '\x7b'
  passBehind text.length
  if ← atMark "\x7b" then return some (← g.braced)
  if (← peek).kind == .finish || isMark (← peekNext) "/" then return none
  return some (← g.read .element)

/-- The children of an element behind its opening tag, and its closing tag, up to the `>` of that.
An element that is not closed reaches to the end of the text. -/
def elementRest (closing : Parse script (List (Tree script))) :
    Parse script (List (Tree script)) := do
  let children ← many g.child
  if (← peek).kind == .finish then return children
  expectMark "<"
  expectMark "/"
  let names ← closing
  ensure (← atMark ">")
  return children ++ names

/-- A markup element; reading stops at the `>` that ends it. -/
def element : Parse script (Tree script) := do
  expectMark "<"
  if ← atMark ">" then return .group (← g.elementRest (pure []))
  let name ← markupName
  let generic ← if g.dialect.types then g.typeArguments? else pure []
  let attributes ← many do
    if (← atMark ">") || (← atMark "/") then return none else return some (← g.elementAttribute)
  let opening := elementNames name ++ generic ++ attributes
  if ← eatMark "/" then
    ensure (← atMark ">")
    return .group opening
  return .group (opening ++ (← g.elementRest do return elementNames (← markupName)))

end Grammar

end DeadCode.Script
