import DeadCode.Script.Grammar.Binding

/-!
# DeadCode.Script.Grammar.Class

Functions and classes, as expressions and as declarations.
-/

namespace DeadCode.Script

open Parse

namespace Grammar

variable {script : List Char} (g : Grammar script)

/-! ### Functions -/

/-- The body of a function. Where there are types, a function may do without. -/
def body : Parse script (Tree script) := do
  if ← atMark "\x7b" then g.read .block
  else
    ensure g.dialect.types
    let _ ← eatMark ";"
    return .group []

/-- The name that stands here, if one does. -/
def name? : Parse script (Option String) := do
  if isVariable (← peek) then return some (← anyName) else return none

/-- A function behind the word `function`: its name and its parts. -/
def functionRest : Parse script (Option String × List (Tree script)) := do
  let _ ← eatMark "*"
  let name ← name?
  let signature ← g.signature
  return (name, signature ++ [← g.body])

/-- A function as an expression, behind the word `function`. -/
def functionExpression : Parse script (Tree script) := do
  let (name, parts) ← g.functionRest
  return .group ((name.map Tree.name).toList ++ parts)

/-- A function as a declaration, behind the word `function`. -/
def functionDeclaration : Parse script (Tree script) := do
  let (name, parts) ← g.functionRest
  match name with
  | some name => return .declared name (.name name :: parts)
  | none => return .group parts

/-! ### Members of classes -/

/-- Words that may stand before the key of a member. -/
def classModifiers : List String := [
  "static", "async", "get", "set", "readonly", "declare", "abstract", "override", "accessor",
  "public", "private", "protected"
]

/-- A method or a field behind its key. -/
def memberRest : Parse script (List (Tree script)) := do
  if g.dialect.types then
    let _ ← eatMark "?"
    let _ ← eatMark "!"
  if (← atMark "(") || (g.dialect.types && (← atMark "<")) then
    return (← g.signature) ++ [← g.body]
  let type ← g.typing?
  return type ++ (← g.default?)

/-- A member of a class. -/
def classMember : Parse script (Tree script) := do
  if ← eatMark ";" then return .group []
  let decorators ← g.decorators
  if (← atWord "static") && isMark (← peekNext) "\x7b" then
    let _ ← advance
    return .group (decorators ++ [← g.read .block])
  memberModifiers classModifiers
  let key ← g.memberKey
  return .group (decorators ++ key ++ (← g.memberRest))

/-! ### Classes -/

/-- The class that is extended, with its type arguments. -/
def heritage (operand : Parse script (Tree script)) : Parse script (List (Tree script)) := do
  if ← eatWord "extends" then
    let base ← operand
    let generic ← if g.dialect.types then g.typeArguments? else pure []
    return base :: generic
  return []

/-- The interfaces that are implemented or extended, behind the word that says so. -/
def interfaces (word : String) : Parse script (List (Tree script)) := do
  if !g.dialect.types then return []
  if ← eatWord word then
    let first ← g.read .type
    let others ← many do
      if ← eatMark "," then return some (← g.read .type) else return none
    return first :: others
  return []

/-- A class behind the word `class`: its name and its parts. Where there are types, the name of a
class is the name of a type. -/
def classRest (operand : Parse script (Tree script)) :
    Parse script (Option String × List (Tree script)) := do
  let name ← if ← atWord "implements" then pure none else name?
  let generic ← g.typeParameters?
  let base ← g.heritage operand
  let implemented ← g.interfaces "implements"
  expectMark "\x7b"
  let members ← many do
    if ← atMark "\x7d" then return none else return some (← g.classMember)
  expectMark "\x7d"
  let bound := if g.dialect.types then [] else (name.map Tree.name).toList
  return (name, bound ++ generic ++ base ++ implemented ++ members)

end Grammar

end DeadCode.Script
