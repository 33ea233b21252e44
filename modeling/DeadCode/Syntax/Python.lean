import DeadCode.Syntax.Module
import DeadCode.Text.Line
import DeadCode.Text.Search
import DeadCode.Text.Space
import DeadCode.Text.Word

/-!
# DeadCode.Syntax.Python

Imports and exports of a Python module, found line by line. Imports may be indented. Exports are the
functions, classes and upper-case constants at the left margin, unless the module lists its exports
in `__all__`.
-/

namespace DeadCode.Python

open Text

/-! ### Words of the language -/

/-- Whether a name may start with `c`. -/
def isNameStart (c : Char) : Bool := c.isAlpha || c == '_'

/-- Whether a dotted name may go on with `c`. -/
def isDotted (c : Char) : Bool := isWord c || c == '.'

/-- A dotted name. -/
def dottedName : List Char → Option (List Char × List Char) := takeName isNameStart isDotted

/-- An alias behind a name: blanks, `as`, blanks, a name. -/
def alias? (cs : List Char) : Option (List Char × List Char) := do
  let cs ← expectMany isBlank cs
  let cs ← expect "as" cs
  let cs ← expectMany isBlank cs
  takeName isWord isWord cs

/-! ### Plain imports -/

/-- A module of an `import` statement, with its alias. -/
def importItem (cs : List Char) : Option ((List Char × Option (List Char)) × List Char) :=
  match dottedName cs with
  | some (name, rest) =>
    match alias? rest with
    | some (as, rest) => some ((name, some as), rest)
    | none => some ((name, none), rest)
  | none => none

/-- The further modules of an `import` statement, each behind a comma. -/
def importItems : Nat → List Char → List (List Char × Option (List Char)) × List Char
  | 0, cs => ([], cs)
  | fuel + 1, cs =>
    match cs.dropWhile isBlank with
    | ',' :: rest =>
      match importItem (rest.dropWhile isBlank) with
      | some (item, rest) =>
        let (items, rest) := importItems fuel rest
        (item :: items, rest)
      | none => ([], cs)
    | _ => ([], cs)

/-- An `import` statement: its modules and their aliases. -/
def importStatement : Recogniser (List (List Char × Option (List Char))) := fun before cs =>
  if atLineStart before then do
    let cs ← expect "import" (cs.dropWhile isBlank)
    let cs ← expectMany isBlank cs
    let (item, cs) ← importItem cs
    let (items, cs) := importItems cs.length cs
    return (item :: items, cs)
  else none

/-- The import of a module: it binds the alias, or else the first segment of the name. -/
def moduleImport (line : Nat) (item : List Char × Option (List Char)) : Import :=
  let (name, as) := item
  let bound := as.getD (name.takeWhile (· ≠ '.'))
  ⟨.ofList name, [.namespaceAs (.ofList bound)], .static, line⟩

/-! ### Imports from a module -/

/-- The module of a `from` statement: a dotted name, or dots and possibly a name behind them. -/
def fromModule (cs : List Char) : Option (List Char × List Char) :=
  match cs with
  | '.' :: _ => some (cs.takeWhile isDotted, cs.dropWhile isDotted)
  | _ => dottedName cs

/-- Whether the unparenthesised names of a `from` statement may go on with `c`. -/
def isNameList (c : Char) : Bool := c != '\n' && c != '#' && c != ';'

/-- The names of a `from` statement, which start behind the blanks that follow `import`: a bracketed
text, or the rest of the line. Where there is nothing behind the blanks, the last of several blanks
is the rest of the line. -/
def fromNames (cs : List Char) : Option (List Char × List Char) :=
  let blanks := cs.takeWhile isBlank
  let rest := cs.dropWhile isBlank
  let bracketed :=
    match rest with
    | '(' :: inner =>
      (cutFirst ')' inner).map fun (names, rest) => ('(' :: names ++ [')'], rest)
    | _ => none
  match blanks, bracketed, rest.takeWhile isNameList with
  | [], _, _ => none
  | _, some found, _ => some found
  | [_], none, [] => none
  | _, none, [] => some (blanks.drop (blanks.length - 1), rest)
  | _, none, names => some (names, rest.dropWhile isNameList)

/-- A `from` statement: its module and the text of its names. -/
def fromStatement : Recogniser (List Char × List Char) := fun before cs =>
  if atLineStart before then do
    let cs ← expect "from" (cs.dropWhile isBlank)
    let cs ← expectMany isBlank cs
    let (name, cs) ← fromModule cs
    let cs ← expectMany isBlank cs
    let cs ← expect "import" cs
    let (names, cs) ← fromNames cs
    return ((name, names), cs)
  else none

/-- The text of the names on one line: comments, line ends and brackets are gone. -/
def plainNames (names : List Char) : List Char :=
  let uncommented := (lines names).map fun line => line.takeWhile (· ≠ '#')
  dropEndWhile (· == ')') ((trim (joinWith [' '] uncommented)).dropWhile (· == '('))

/-- One of the names, with its alias. -/
def nameSpecifier (item : List Char) : Specifier :=
  if item == ['*'] then .namespaceAs "*"
  else
    match words item with
    | name :: ['a', 's'] :: as :: _ => .named (.ofList name) (.ofList as)
    | name :: _ => .named (.ofList name) (.ofList name)
    | [] => .named "" ""

/-- What a `from` statement binds. -/
def nameSpecifiers (names : List Char) : List Specifier :=
  let items := (splitOn ',' (plainNames names)).map fun item =>
    trim (dropEndWhile (· == '\\') (trim item))
  (items.filter (!·.isEmpty)).map nameSpecifier

/-- The import of a `from` statement; one that binds nothing is none. -/
def namesImport (line : Nat) (statement : List Char × List Char) : Option Import :=
  match nameSpecifiers statement.2 with
  | [] => none
  | specifiers => some ⟨.ofList statement.1, specifiers, .static, line⟩

/-! ### Exports -/

/-- The definition of a function or class at the left margin. -/
def definition : Recogniser (List Char) := fun before cs =>
  if atLineStart before then do
    let asyncDef : Option (List Char) := do
      let cs ← expect "async" cs
      let cs ← expectMany isBlank cs
      expect "def" cs
    let cs ← asyncDef <|> expectOne ["def", "class"] cs
    let cs ← expectMany isBlank cs
    takeName isNameStart isWord cs
  else none

/-- A type behind a name, if there is one, and the equals sign of an assignment. -/
def assignment (cs : List Char) : Option (List Char) :=
  match cs.dropWhile isBlank with
  | ':' :: cs => do
    let cs ← expectMany (fun c => c != '=' && c != '\n') cs
    expect "=" cs
  | cs => expect "=" cs

/-- The assignment of an upper-case constant at the left margin. -/
def constant : Recogniser (List Char) := fun before cs =>
  if atLineStart before then do
    let (name, cs) ← takeName Char.isUpper (fun c => c.isUpper || c.isDigit || c == '_') cs
    let cs ← assignment cs
    let cs ← expectIf (· != '=') cs
    return (name, cs)
  else none

/-- The list that is assigned to `__all__` at the left margin, without its brackets. -/
def exportList : Recogniser (List Char) := fun before cs =>
  if atLineStart before then do
    let cs ← expect "__all__" cs
    let cs ← assignment cs
    let cs ← expectOne ["[", "("] (cs.dropWhile isBlank)
    let isClose (c : Char) : Bool := c == ']' || c == ')'
    let rest ← expectIf isClose (cs.dropWhile (!isClose ·))
    return (cs.takeWhile (!isClose ·), rest)
  else none

/-- A name in quotes. -/
def quotedName : Recogniser (List Char) := fun _ cs => do
  let isQuote (c : Char) : Bool := c == '\'' || c == '"'
  let cs ← expectIf isQuote cs
  let (name, cs) ← takeName isNameStart isWord cs
  let cs ← expectIf isQuote cs
  return (name, cs)

/-! ### The module -/

/-- The imports, by line; on one line plain imports come first. -/
def imports (index : LineIndex) (cs : List Char) : List Import :=
  let plain := (finds importStatement cs).flatMap fun found =>
    found.value.map (moduleImport (index.lineAt found.offset))
  let fromModules := (finds fromStatement cs).filterMap fun found =>
    namesImport (index.lineAt found.offset) found.value
  (plain ++ fromModules).mergeSort fun a b => a.line ≤ b.line

/-- The exports before repetitions are dropped: those of `__all__`, or else the public definitions
and constants, by line. -/
def exports (index : LineIndex) (cs : List Char) : List ExportedSymbol :=
  match findFirst? exportList cs with
  | some found =>
    (findValues quotedName found.value).map fun name => ⟨.ofList name, index.lineAt found.offset⟩
  | none =>
    let symbols := (finds definition cs ++ finds constant cs).map fun found =>
      (⟨.ofList found.value, index.lineAt found.offset⟩ : ExportedSymbol)
    (symbols.filter fun e => e.name.toList.head? != some '_').mergeSort fun a b => a.line ≤ b.line

/-- The imports and exports of a Python text. -/
def scan (text : String) : ModuleSyntax :=
  let cs := text.toList
  let index := LineIndex.ofText cs
  (exports index cs).foldl ModuleSyntax.addExport ⟨imports index cs, []⟩

end DeadCode.Python
