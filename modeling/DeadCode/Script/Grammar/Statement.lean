import DeadCode.Script.Grammar.Module

/-!
# DeadCode.Script.Grammar.Statement

Statements and declarations. The end of a statement is not insisted on: a semicolon is passed over
where there is one, and otherwise the next statement starts where this one can go on no further.
-/

namespace DeadCode.Script

open Parse

namespace Grammar

variable {script : List Char} (g : Grammar script)

/-! ### Lists of statements -/

/-- Statements up to the end of the text or to a token at which `stop` holds. A token that starts no
statement is passed over. -/
def statements (stop : Token → Bool) : Parse script (List (Tree script)) := many do
  passComments
  let t ← peek
  if t.kind == .finish || stop t then return none
  match ← attempt (g.read .statement) with
  | some tree => return some tree
  | none =>
    let _ ← advance
    return some (.group [])

/-- Statements in braces. -/
def block : Parse script (Tree script) := do
  expectMark "\x7b"
  let trees ← g.statements (isMark · "\x7d")
  expectMark "\x7d"
  return .group trees

/-! ### Declarations -/

/-- A class as a declaration, behind its decorators and the word `class`. -/
def classDeclaration (decorators : List (Tree script)) : Parse script (Tree script) := do
  let (name, parts) ← g.classRest (g.read (.operand {}))
  match name with
  | some name => return .declared name (decorators ++ parts)
  | none => return .group (decorators ++ parts)

/-- An interface, behind the word that says so. -/
def interface : Parse script (Tree script) := do
  let name ← anyName
  let generic ← g.typeParameters?
  let extended ← g.interfaces "extends"
  return .declared name (generic ++ extended ++ [← g.typeMembers])

/-- A name for a type, behind the word that says so. -/
def typeAlias : Parse script (Tree script) := do
  let name ← anyName
  let generic ← g.typeParameters?
  expectMark "="
  let type ← g.read .type
  let _ ← eatMark ";"
  return .declared name (generic ++ [type])

/-- An enumeration, behind the word that says so. -/
def enumeration : Parse script (Tree script) := do
  let name ← anyName
  expectMark "\x7b"
  let members ← commaList "\x7d" do
    let key ← g.memberKey
    return Tree.group (key ++ (← g.default?))
  return .declared name (.name name :: members)

/-- A namespace or module, behind the word that says so. Its name is a string or a path of names,
and is taken as it is written. -/
def namespaceDeclaration : Parse script (Tree script) := do
  let start ← get
  let t ← advance
  ensure (t.kind == .name || t.kind == .string)
  let _ ← memberPath
  let name ← textSince start
  let body ← if ← atMark "\x7b" then pure [← g.read .block] else pure []
  let _ ← eatMark ";"
  return .declared (.ofList name) body

/-- Whether a declaration of variables starts with these tokens. -/
def startsVariables (t next : Token) : Bool :=
  isWordToken t "var" || isWordToken t "const" ||
    (isWordToken t "let" &&
      (isVariable next || isMark next "[" || isMark next "\x7b"))

/-- A declaration of types and namespaces, if one stands here. -/
def typeDeclaration? (t next : Token) : Parse script (Option (Tree script)) := do
  let nameFollows := next.kind == .name && !next.gap.newline
  match t.text with
  | "interface" =>
    when? nameFollows do
      let _ ← advance
      g.interface
  | "type" =>
    when? nameFollows do
      let _ ← advance
      g.typeAlias
  | "enum" =>
    let _ ← advance
    return some (← g.enumeration)
  | "namespace" =>
    when? nameFollows do
      let _ ← advance
      g.namespaceDeclaration
  | "module" =>
    when? (nameFollows || (next.kind == .string && !next.gap.newline)) do
      let _ ← advance
      g.namespaceDeclaration
  | "abstract" =>
    when? (isWordToken next "class") do
      let _ ← advance
      let _ ← advance
      g.classDeclaration []
  | _ => return none

/-- A declaration other than one behind `declare`, if one stands here. -/
def plainDeclaration? : Parse script (Option (Tree script)) := do
  let decorators ← g.decorators
  let t ← peek
  let next ← peekNext
  if t.kind != .name then return none
  if g.dialect.types && t.text == "const" && isWordToken next "enum" then
    let _ ← advance
    let _ ← advance
    return some (← g.enumeration)
  if startsVariables t next then
    let _ ← advance
    let tree ← g.variableDeclaration {}
    let _ ← eatMark ";"
    return some tree
  match t.text with
  | "function" =>
    let _ ← advance
    return some (← g.functionDeclaration)
  | "async" =>
    when? (isWordToken next "function" && !next.gap.newline) do
      let _ ← advance
      let _ ← advance
      g.functionDeclaration
  | "class" =>
    let _ ← advance
    return some (← g.classDeclaration decorators)
  | _ =>
    if g.dialect.types then
      match ← g.typeDeclaration? t next with
      | some tree =>
        return some (if decorators.isEmpty then tree else
          match tree with
          | .declared name parts => .declared name (decorators ++ parts)
          | tree => .group (decorators ++ [tree]))
      | none => return none
    else return none

/-- A declaration, if one stands here. -/
def declaration? : Parse script (Option (Tree script)) := do
  let next ← peekNext
  if g.dialect.types && (← atWord "declare") && next.kind == .name && !next.gap.newline then
    let _ ← advance
    if (← atWord "global") && isMark (← peekNext) "\x7b" then
      let _ ← advance
      return some (.ambient [.group [← g.read .block]])
    match ← g.plainDeclaration? with
    | some tree => return some (.ambient [tree])
    | none => failure
  g.plainDeclaration?

/-! ### Control -/

/-- The rest of a loop behind `for`: what it starts with, and either what it goes over or its
condition and its step. -/
def loopHead : Parse script (List (Tree script)) := do
  expectMark "("
  let t ← peek
  let next ← peekNext
  let first ←
    if startsVariables t next then
      let _ ← advance
      pure [← g.variableDeclaration { noIn := true }]
    else if isMark t ";" then pure []
    else pure [← g.read (.expression { noIn := true })]
  if (← atWord "of") || (← atWord "in") then
    let _ ← advance
    let subject ← g.read (.expression {})
    expectMark ")"
    return first ++ [subject]
  expectMark ";"
  let condition ← if ← atMark ";" then pure [] else pure [← g.read (.expression {})]
  expectMark ";"
  let step ← if ← atMark ")" then pure [] else pure [← g.read (.expression {})]
  expectMark ")"
  return first ++ condition ++ step

/-- The part of a `switch` behind `case` or `default`. -/
def switchCase : Parse script (Option (Tree script)) := do
  if ← atMark "\x7d" then return none
  let tested ←
    if ← eatWord "case" then pure [← g.read (.expression {})]
    else
      expectWord "default"
      pure []
  expectMark ":"
  let stops (t : Token) : Bool := isMark t "\x7d" || isWordToken t "case" || isWordToken t "default"
  return some (.group (tested ++ (← g.statements stops)))

/-- The parts of a `try` behind its block. -/
def handlers : Parse script (List (Tree script)) := do
  let caught ←
    if ← eatWord "catch" then
      let bound ←
        if ← eatMark "(" then
          let target ← g.read .pattern
          let type ← g.typing?
          expectMark ")"
          pure (target :: type)
        else pure []
      pure (bound ++ [← g.read .block])
    else pure []
  let final ← if ← eatWord "finally" then pure [← g.read .block] else pure []
  return caught ++ final

/-- An operand on the same line, if there is one, and the end of the statement. -/
def sameLineOperand : Parse script (List (Tree script)) := do
  let t ← peek
  let parts ←
    if startsOperand t && !t.gap.newline then pure [← g.read (.expression {})] else pure []
  let _ ← eatMark ";"
  return parts

/-- A statement that starts with a keyword, if one stands here. -/
def controlStatement? (word : String) : Parse script (Option (Tree script)) := do
  let control (p : Parse script (List (Tree script))) : Parse script (Option (Tree script)) := do
    let _ ← advance
    return some (.group (← p))
  match word with
  | "if" => control do
    let condition ← g.bracketed
    let yes ← g.read .statement
    let no ← if ← eatWord "else" then pure [← g.read .statement] else pure []
    return condition :: yes :: no
  | "for" => control do
    let _ ← eatWord "await"
    let head ← g.loopHead
    return head ++ [← g.read .statement]
  | "while" => control do return [← g.bracketed, ← g.read .statement]
  | "with" => control do return [← g.bracketed, ← g.read .statement]
  | "do" => control do
    let body ← g.read .statement
    expectWord "while"
    let condition ← g.bracketed
    let _ ← eatMark ";"
    return [body, condition]
  | "switch" => control do
    let subject ← g.bracketed
    expectMark "\x7b"
    let cases ← many g.switchCase
    expectMark "\x7d"
    return subject :: cases
  | "try" => control do
    let body ← g.read .block
    return body :: (← g.handlers)
  | "return" => control g.sameLineOperand
  | "throw" => control g.sameLineOperand
  | "break" => control do
    let t ← peek
    if t.kind == .name && !t.gap.newline then let _ ← advance
    let _ ← eatMark ";"
    return []
  | "continue" => control do
    let t ← peek
    if t.kind == .name && !t.gap.newline then let _ ← advance
    let _ ← eatMark ";"
    return []
  | "debugger" => control do
    let _ ← eatMark ";"
    return []
  | _ => return none

/-! ### Statements -/

/-- An expression as a statement. -/
def expressionStatement : Parse script (Tree script) := do
  let tree ← g.read (.expression {})
  let _ ← eatMark ";"
  return tree

/-- A statement that starts with a word. -/
def wordStatement (t next : Token) : Parse script (Tree script) := do
  if isVariable t && isMark next ":" then
    let _ ← advance
    let _ ← advance
    return ← g.read .statement
  if t.text == "import" && !isMark next "(" && !isMark next "." then return ← g.importStatement
  if t.text == "export" then return ← g.exportStatement t.left [] g.declaration?
  match ← g.controlStatement? t.text with
  | some tree => return tree
  | none =>
    match ← g.declaration? with
    | some tree => return tree
    | none => g.expressionStatement

/-- A statement. -/
def statement : Parse script (Tree script) := do
  passComments
  let t ← peek
  match t.kind with
  | .finish => failure
  | .name => g.wordStatement t (← peekNext)
  | .mark =>
    match t.text with
    | "\x7b" => g.block
    | ";" => let _ ← advance; return .group []
    | "@" =>
      let here ← get
      let decorators ← g.decorators
      if ← atWord "export" then g.exportStatement t.left decorators g.declaration?
      else
        set here
        match ← g.declaration? with
        | some tree => return tree
        | none => g.expressionStatement
    | _ => g.expressionStatement
  | _ => g.expressionStatement

end Grammar

end DeadCode.Script
