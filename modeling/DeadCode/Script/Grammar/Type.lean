import DeadCode.Script.Grammar.Template

/-!
# DeadCode.Script.Grammar.Type

Types. What a type is made of matters little here: it is read to find where it ends, the modules
that it imports and the variables whose type it asks for. So the operators of types are read from
left to right without regard to how strongly they bind.
-/

namespace DeadCode.Script

open Parse

namespace Grammar

variable {script : List Char} (g : Grammar script)

/-! ### Arguments and parameters of types -/

/-- The types in angle brackets behind a name. -/
def typeArguments : Parse script (List (Tree script)) := do
  expectMark "<"
  commaList ">" (g.read .type)

/-- The types in angle brackets behind a name, if there are any. -/
def typeArguments? : Parse script (List (Tree script)) := do
  if ← atMark "<" then g.typeArguments else return []

/-- A type behind a word or mark that has been passed over. -/
def typeAfter (passed : Bool) : Parse script (List (Tree script)) := do
  if passed then return [← g.read .type] else return []

/-- One parameter of a generic declaration, with its bound and its default. -/
def typeParameter : Parse script (List (Tree script)) := do
  let _ ← many do
    let t ← peek
    if ["const", "in", "out"].contains t.text && (← peekNext).kind == .name then
      return some (← advance)
    return none
  let _ ← anyName
  let bound ← g.typeAfter (← eatWord "extends")
  let otherwise ← g.typeAfter (← eatMark "=")
  return bound ++ otherwise

/-- The parameters of a generic declaration, if there are any. -/
def typeParameters? : Parse script (List (Tree script)) := do
  if !g.dialect.types then return []
  if ← eatMark "<" then return (← commaList ">" g.typeParameter).flatten
  return []

/-- A type behind a colon, if there is one. -/
def typing? : Parse script (List (Tree script)) := do
  if !g.dialect.types then return []
  g.typeAfter (← eatMark ":")

/-- The parameters, in round and possibly in angle brackets, and the result type of a function. -/
def signature : Parse script (List (Tree script)) := do
  let generic ← g.typeParameters?
  let parameters ← g.read .parameters
  return generic ++ parameters :: (← g.typing?)

/-! ### Members of object types -/

/-- A name in square brackets: the keys of a mapped type, the key of an index signature, or a name
that is computed. -/
def bracketedKey : Parse script (List (Tree script)) := do
  expectMark "["
  let next ← peekNext
  let typed := g.dialect.types && (← peek).kind == .name
  if typed && isWordToken next "in" then
    let _ ← advance
    let _ ← advance
    let keys ← g.read .type
    let renamed ← g.typeAfter (← eatWord "as")
    expectMark "]"
    return keys :: renamed
  else if typed && isMark next ":" then
    let t ← advance
    let _ ← advance
    let keys ← g.read .type
    expectMark "]"
    return [.name t.text, keys]
  else
    let key ← g.read (.expression {})
    expectMark "]"
    return [key]

/-- The key of a member; only a computed one has parts. -/
def memberKey : Parse script (List (Tree script)) := do
  if ← atMark "[" then g.bracketedKey
  else
    let t ← advance
    ensure (startsKey t)
    return []

/-- Pass over the words and signs before the key of a member. -/
def memberModifiers (words : List String) : Parse script Unit := do
  let _ ← many do
    let t ← peek
    let next ← peekNext
    if t.kind == .name && words.contains t.text && (startsKey next || isMark next "*") then
      return some (← advance)
    if isMark t "*" || ((isMark t "+" || isMark t "-") && isWordToken next "readonly") then
      return some (← advance)
    return none

/-- A member of an object type. -/
def typeMember : Parse script (Tree script) := do
  if (← atMark "(") || (← atMark "<") then return .group (← g.signature)
  if ← atWord "new" then
    let next ← peekNext
    if isMark next "(" || isMark next "<" then
      let _ ← advance
      return .group (← g.signature)
  memberModifiers ["readonly", "get", "set", "static", "async", "declare"]
  let key ← g.memberKey
  let _ ← eatMark "+"
  let _ ← eatMark "-"
  let _ ← eatMark "?"
  if (← atMark "(") || (← atMark "<") then return .group (key ++ (← g.signature))
  return .group (key ++ (← g.typing?))

/-- The members of an object type, with semicolons, commas or line ends between them. -/
def typeMembers : Parse script (Tree script) := do
  expectMark "\x7b"
  let members ← many do
    if ← atMark "\x7d" then return none
    if ← eatOneMark [";", ","] then return some (.group [])
    return some (← g.typeMember)
  expectMark "\x7d"
  return .group members

/-! ### Operands -/

/-- An element of a tuple type: possibly named, optional, or spread. -/
def tupleElement : Parse script (Tree script) := do
  let _ ← eatMark "..."
  let next ← peekNext
  let named : Parse script (Option Unit) := attempt do
    let _ ← anyName
    let _ ← eatMark "?"
    expectMark ":"
  if (← peek).kind == .name && (isMark next ":" || isMark next "?") then
    let _ ← named
  let tree ← g.read .type
  let _ ← eatMark "?"
  return tree

/-- The members behind a name: a dot and a name each. -/
def memberPath : Parse script (List Unit) := many do
  if (← atMark ".") && isMemberName (← peekNext) then
    let _ ← advance
    let _ ← advance
    return some ()
  return none

/-- A call of `import` in a type, with the path to a member and its type arguments. -/
def importedType : Parse script (Tree script) := do
  let start ← peek
  expectWord "import"
  expectMark "("
  let comment := if (← peek).gap.comment then [Tree.comment] else []
  let arguments ← commaList ")" (g.read (.assignment {}))
  let _ ← memberPath
  return .group (.call start.left .importWord [] (comment ++ arguments) :: (← g.typeArguments?))

/-- The type of a variable or of one of its members, possibly of what a call of it returns. -/
def typeQuery : Parse script (Tree script) := do
  if ← atWord "import" then g.importedType
  else
    let start ← peek
    let name ← anyName
    let path ← memberPath
    let generic ← g.typeArguments?
    let whole : Tree script := if path.isEmpty then .name name else .group [.name name]
    if (← atMark "(") && !(← peek).gap.newline then
      expectMark "("
      let comment := if (← peek).gap.comment then [Tree.comment] else []
      let arguments ← commaList ")" (g.read (.assignment {}))
      return .group [.call start.left whole generic (comment ++ arguments)]
    return .group (whole :: generic)

/-- A type by its name, with the path to it and its type arguments. -/
def namedType : Parse script (Tree script) := do
  let name ← anyName
  let path ← memberPath
  let generic ← g.typeArguments?
  return .group ((if path.isEmpty then [] else [.name name]) ++ generic)

/-- A function type: its parameters and what it returns. -/
def functionType : Parse script (Tree script) := do
  let generic ← g.typeParameters?
  let parameters ← g.read .parameters
  expectMark "=>"
  return .group (generic ++ [parameters, ← g.read .type])

/-- Words that stand before a type. -/
def typePrefixes : List String := ["keyof", "unique", "readonly", "infer", "asserts", "abstract"]

/-- Whether a type may start with the token. -/
def startsType (t : Token) : Bool :=
  t.kind == .name || t.kind == .string || t.kind == .number ||
    (t.kind == .mark && ["(", "[", "\x7b", "<", "`", "-"].contains t.text)

/-- Whether the first of two tokens stands before the type that starts with the second, and is not
the name of a type itself. -/
def precedesType (t next : Token) : Bool :=
  typePrefixes.contains t.text && startsType next && !next.gap.newline &&
    next.text != "is" && next.text != "extends" && !isMark next "<"

/-- A type that begins with a word. -/
def wordType : Parse script (Tree script) := do
  let t ← peek
  if precedesType t (← peekNext) then
    let _ ← advance
    g.read .type
  else if t.text == "new" then
    let _ ← advance
    g.functionType
  else if t.text == "typeof" then
    let _ ← advance
    g.typeQuery
  else if t.text == "import" then g.importedType
  else g.namedType

/-- A type without operators. -/
def typeOperand : Parse script (Tree script) := do
  let t ← peek
  match t.kind with
  | .name => g.wordType
  | .string | .number => let _ ← advance; return .group []
  | .mark =>
    match t.text with
    | "\x7b" => g.typeMembers
    | "[" => let _ ← advance; return .group (← commaList "]" g.tupleElement)
    | "`" => return .group [← template (g.read .type)]
    | "-" => let _ ← advance; let _ ← advance; return .group []
    | "<" => g.functionType
    | "(" =>
      match ← attempt g.functionType with
      | some tree => return tree
      | none =>
        let _ ← advance
        let tree ← g.read .type
        expectMark ")"
        return .group [tree]
    | _ => failure
  | _ => failure

/-! ### Operators -/

/-- One step behind an operand: an index in brackets, or an operator with its right operand. The
result tells whether the operator was `extends`. -/
def typeStep : Parse script (Option (Bool × List (Tree script))) := do
  let t ← peek
  if isMark t "[" && !t.gap.newline then
    let _ ← advance
    if ← eatMark "]" then return some (false, [])
    let index ← g.read .type
    expectMark "]"
    return some (false, [index])
  if isMark t "|" || isMark t "&" then
    let _ ← advance
    return some (false, [← g.typeOperand])
  if isWordToken t "extends" || (isWordToken t "is" && !t.gap.newline) then
    let _ ← advance
    return some (t.text == "extends", [← g.typeOperand])
  return none

/-- A type. -/
def typeExpression : Parse script (Tree script) := do
  let _ ← eatOneMark ["|", "&"]
  let first ← g.typeOperand
  let steps ← many g.typeStep
  let parts := first :: steps.flatMap Prod.snd
  if steps.any Prod.fst then
    if ← eatMark "?" then
      let yes ← g.read .type
      expectMark ":"
      let no ← g.read .type
      return .group (parts ++ [yes, no])
  match parts with
  | [tree] => return tree
  | parts => return .group parts

end Grammar

end DeadCode.Script
