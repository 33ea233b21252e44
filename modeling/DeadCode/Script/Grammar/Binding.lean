import DeadCode.Script.Grammar.Type

/-!
# DeadCode.Script.Grammar.Binding

Bindings of names: patterns, parameters, and the variables of a declaration. Which names a pattern
binds is read off its tree (`Tree.boundNames`).
-/

namespace DeadCode.Script

open Parse

namespace Grammar

variable {script : List Char} (g : Grammar script)

/-! ### Patterns -/

/-- A default value, if there is one. -/
def default? : Parse script (List (Tree script)) := do
  if ← eatMark "=" then return [← g.read (.assignment {})] else return []

/-- A pattern with a default value; the value binds nothing. -/
def defaulted : Parse script (Tree script) := do
  let target ← g.read .pattern
  match ← g.default? with
  | [] => return target
  | value => return .binds [] target value

/-- A property of an object pattern. In the short form the parts of the default value stand beside
the name. -/
def patternProperty : Parse script (Tree script) := do
  if ← eatMark "..." then return .group [← g.read .pattern]
  let next ← peekNext
  if isVariable (← peek) && !isMark next ":" then
    let name ← anyName
    match ← g.default? with
    | [] => return .name name
    | value => return .group (.name name :: value)
  let key ← g.memberKey
  expectMark ":"
  return .binds key (← g.defaulted) []

/-- An element of an array pattern, possibly a hole. -/
def patternElement : Parse script (Tree script) := do
  if ← atMark "," then return .group []
  if ← eatMark "..." then return .group [← g.defaulted]
  g.defaulted

/-- A pattern: a name, or one that takes an object or an array apart. -/
def pattern : Parse script (Tree script) := do
  let t ← advance
  if isMark t "\x7b" then return .pattern (← commaList "\x7d" g.patternProperty)
  if isMark t "[" then return .pattern (← commaList "]" g.patternElement)
  ensure (isVariable t)
  return .name t.text

/-! ### Decorators -/

/-- The arguments of a call. A comment before the first of them is kept. -/
def arguments : Parse script (List (Tree script)) := do
  expectMark "("
  let comment := if (← peek).gap.comment then [Tree.comment] else []
  let items ← commaList ")" do
    if ← eatMark "..." then return Tree.group [← g.read (.assignment {})]
    g.read (.assignment {})
  return comment ++ items

/-- A decorator: a name, a member or a call, or an expression in brackets. -/
def decorator : Parse script (Tree script) := do
  expectMark "@"
  if ← eatMark "(" then
    let tree ← g.read (.expression {})
    expectMark ")"
    return .group [tree]
  let start ← peek
  let name ← anyName
  let path ← memberPath
  let whole : Tree script := if path.isEmpty then .name name else .group [.name name]
  let generic ← if g.dialect.types then g.typeArguments? else pure []
  if ← atMark "(" then
    return .group [.call start.left whole generic (← g.arguments)]
  return .group (whole :: generic)

/-- All decorators that stand here. -/
def decorators : Parse script (List (Tree script)) := many do
  if ← atMark "@" then return some (← g.decorator) else return none

/-! ### Parameters -/

/-- Words that make a parameter of a constructor a field. -/
def parameterModifiers : List String := ["public", "private", "protected", "readonly", "override"]

/-- Pass over the words before a parameter. -/
def passParameterModifiers : Parse script Unit := do
  let _ ← many do
    let t ← peek
    let next ← peekNext
    let goesOn := next.kind == .name || isMark next "\x7b" || isMark next "["
    if t.kind == .name && parameterModifiers.contains t.text && goesOn then
      return some (← advance)
    return none

/-- A parameter. Where there are types, its default value stands beside its name. -/
def parameter : Parse script (Tree script) := do
  let decorators ← g.decorators
  if !g.dialect.types then
    if ← eatMark "..." then return .group [← g.read .pattern]
    let tree ← g.defaulted
    return if decorators.isEmpty then tree else .group (decorators ++ [tree])
  passParameterModifiers
  let _ ← eatMark "..."
  let target ← if ← eatWord "this" then pure (Tree.group []) else g.read .pattern
  let _ ← eatMark "?"
  let type ← g.typing?
  let value ← g.default?
  return .group (decorators ++ target :: type ++ value)

/-- The parameters of a function in their brackets. -/
def parameters : Parse script (Tree script) := do
  expectMark "("
  return .group (← commaList ")" g.parameter)

/-! ### Variables -/

/-- One variable of a declaration. -/
def declarator (limits : Limits) : Parse script (Tree script) := do
  let target ← g.read .pattern
  if g.dialect.types then let _ ← eatMark "!"
  let type ← g.typing?
  let value ← if ← eatMark "=" then pure [← g.read (.assignment limits)] else pure []
  return .declarator target type value

/-- The variables of a declaration, behind the word that starts it. -/
def variableDeclaration (limits : Limits) : Parse script (Tree script) := do
  let first ← g.declarator limits
  let others ← many do
    if ← eatMark "," then return some (← g.declarator limits) else return none
  return .variableDeclaration (first :: others)

end Grammar

end DeadCode.Script
