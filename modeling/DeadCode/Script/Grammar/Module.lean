import DeadCode.Script.Grammar.Expression

/-!
# DeadCode.Script.Grammar.Module

Import and export statements.
-/

namespace DeadCode.Script

open Parse

/-! ### Names and sources -/

/-- A name, or a string in the place of a name. -/
def exportName (t : Token) : String :=
  if t.kind == .string then .ofList (unquote t.text.toList) else t.text

variable {script : List Char}

/-- What the string behind `from` says. -/
def sourceText : Parse script (Option (Quoted script)) := do
  let s ← get
  let t ← advance
  ensure (t.kind == .string)
  return s.quoted

/-- The tokens of one item in braces: names, strings and the words between them. -/
def itemTokens : Parse script (List Token) := many do
  let t ← peek
  if t.kind == .name || t.kind == .string then return some (← advance) else return none

/-- Words that say that only a type is imported or exported. -/
def typeWords : List String := ["type", "typeof"]

/-- The two names of an item: `a`, or `a as b`. Where there are types, one of the words `typeWords`
may stand before. -/
def itemNames (types : Bool) (tokens : List Token) : Option (Token × Token) :=
  match tokens with
  | [a] => some (a, a)
  | [a, as, b] => if as.text == "as" then some (a, b) else none
  | [word, a] => if types && typeWords.contains word.text then some (a, a) else none
  | [word, a, as, b] =>
    if types && typeWords.contains word.text && as.text == "as" then some (a, b) else none
  | _ => none

namespace Grammar

variable (g : Grammar script)

/-- One item in braces. -/
def item : Parse script (Token × Token) := do
  match itemNames g.dialect.types (← itemTokens) with
  | some names => return names
  | none => failure

/-- The items in braces. -/
def items : Parse script (List (Token × Token)) := do
  expectMark "\x7b"
  commaList "\x7d" g.item

/-- Pass over the attributes of an import behind its source. -/
def attributes : Parse script Unit := do
  let t ← peek
  if (isWordToken t "with" || isWordToken t "assert") && isMark (← peekNext) "\x7b" then
    let _ ← advance
    let _ ← g.object

/-! ### Imports -/

/-- The default import, if there is one. -/
def defaultImport : Parse script (List Specifier) := do
  let t ← peek
  if t.kind == .name then
    let _ ← advance
    return [.defaultAs t.text]
  return []

/-- All of a module under one name. -/
def namespaceImport : Parse script (List Specifier) := do
  expectMark "*"
  expectWord "as"
  let t ← advance
  ensure (t.kind == .name || t.kind == .string)
  return [.namespaceAs (exportName t)]

/-- Names in braces; the second name of an item is taken as it is written. -/
def namedImport : Parse script (List Specifier) := do
  return (← g.items).map fun (a, b) =>
    .named (exportName a) (if a.left == b.left then exportName a else b.text)

/-- What is imported, up to `from`. -/
def importSpecifiers : Parse script (List Specifier) := do
  let first ← defaultImport
  let more ← if first.isEmpty then pure true else eatMark ","
  if !more then return first
  if ← atMark "*" then return first ++ (← namespaceImport)
  return first ++ (← g.namedImport)

/-- Whether the word behind `import` says that only types are imported: `type` is no name itself
when a name other than `from` follows, or braces, or a star. -/
def importsTypes : Parse script Bool := do
  if !(g.dialect.types && typeWords.contains (← peek).text) then return false
  let next ← peekNext
  if isMark next "\x7b" || isMark next "*" then return true
  let afterNext := (← get).next.next.token
  return next.kind == .name && (next.text != "from" || isWordToken afterNext "from")

/-- An import statement. -/
def importStatement : Parse script (Tree script) := do
  let start ← peek
  expectWord "import"
  let finish (specifiers : List Specifier) (required : Bool)
      (source : Option (Quoted script)) :
      Parse script (Tree script) := do
    g.attributes
    let _ ← eatMark ";"
    return .importing start.left ⟨source, specifiers, required⟩
  if (← peek).kind == .string then
    return ← finish [] false (← sourceText)
  if ← g.importsTypes then let _ ← advance
  if g.dialect.types && isMark (← peekNext) "=" then
    let name ← anyName
    let _ ← advance
    if (← atWord "require") && isMark (← peekNext) "(" then
      let _ ← advance
      let _ ← advance
      let source ← sourceText
      expectMark ")"
      return ← finish [.entire name] true source
    let _ ← g.read (.assignment {})
    let _ ← eatMark ";"
    return .group []
  let specifiers ← g.importSpecifiers
  expectWord "from"
  finish specifiers false (← sourceText)

/-! ### Exports -/

/-- The source behind `from`, if there is one. -/
def source? : Parse script (Option (Quoted script)) := do
  if ← eatWord "from" then
    let source ← sourceText
    g.attributes
    return source
  return none

/-- Names in braces that are exported, possibly from another module. -/
def listedExport : Parse script (ExportClause script) := do
  let names ← g.items
  let source ← g.source?
  let _ ← eatMark ";"
  return .listed (names.map fun (a, b) => (exportName a, exportName b)) source

/-- All names of another module that are exported. -/
def starExport : Parse script (ExportClause script) := do
  expectMark "*"
  let under ← when? (← eatWord "as") advance
  expectWord "from"
  let source ← sourceText
  g.attributes
  let _ ← eatMark ";"
  return .all (under.map exportName) source

/-- The default export, behind the word `default`: a declaration if one stands there, or an
expression. -/
def defaultExport (declaration : Parse script (Option (Tree script))) :
    Parse script (Tree script) := do
  match ← declaration with
  | some tree => return tree
  | none =>
    let tree ← g.read (.assignment {})
    let _ ← eatMark ";"
    return tree

/-- An export statement, whose decorators have been read and which starts at `left`; `declaration`
reads a declaration if one stands here. -/
def exportStatement (left : Nat) (decorators : List (Tree script))
    (declaration : Parse script (Option (Tree script))) : Parse script (Tree script) := do
  expectWord "export"
  let finish (clause : ExportClause script) (parts : List (Tree script)) : Tree script :=
    .exporting left clause (decorators ++ parts)
  if ← eatWord "default" then return finish .asDefault [← g.defaultExport declaration]
  if ← atMark "\x7b" then return finish (← g.listedExport) []
  if ← atMark "*" then return finish (← g.starExport) []
  if g.dialect.types then
    if ← eatMark "=" then
      let tree ← g.read (.expression {})
      let _ ← eatMark ";"
      return finish .nothing [tree]
    let next ← peekNext
    if (← atWord "as") && isWordToken next "namespace" then
      let _ ← advance
      let _ ← advance
      let _ ← advance
      let _ ← eatMark ";"
      return finish .nothing []
    if (← atWord "type") && (isMark next "\x7b" || isMark next "*") then
      let _ ← advance
      if ← atMark "*" then return finish (← g.starExport) []
      return finish (← g.listedExport) []
    if ← atWord "import" then
      let _ ← advance
      let _ ← eatWord "type"
      let _ ← anyName
      expectMark "="
      let tree ← g.read (.assignment {})
      let _ ← eatMark ";"
      return finish .nothing [tree]
  match ← declaration with
  | some tree => return finish .declaration [tree]
  | none => failure

end Grammar

end DeadCode.Script
