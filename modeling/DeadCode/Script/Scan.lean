import DeadCode.Script.Program
import DeadCode.Text.Line

/-!
# DeadCode.Script.Scan

Imports and exports of a script, read off its syntax tree. The tree is walked from left to right, a
node before its parts; each import statement, export statement and call that loads a module gives
its facts. The line of a fact is one plus the line feeds before its place in the text.
-/

namespace DeadCode.Script

variable {script : List Char}

/-! ### Names -/

mutual

/-- The names that a pattern binds. A tree that is no pattern binds all names in it. -/
def Tree.boundNames : Tree script → List String
  | .name text => [text]
  | .binds _ target _ => target.boundNames
  | .template parts => namesOfTrees parts
  | .call _ callee types arguments =>
    callee.boundNames ++ namesOfTrees types ++ namesOfTrees arguments
  | .pattern parts => namesOfTrees parts
  | .declarator target type value =>
    target.boundNames ++ namesOfTrees type ++ namesOfTrees value
  | .variableDeclaration declarators => namesOfTrees declarators
  | .declared _ parts => namesOfTrees parts
  | .ambient parts => namesOfTrees parts
  | .exporting _ _ parts => namesOfTrees parts
  | .group parts => namesOfTrees parts
  | _ => []

/-- The names that several trees bind. -/
def namesOfTrees : List (Tree script) → List String
  | [] => []
  | tree :: trees => tree.boundNames ++ namesOfTrees trees

end

/-- The names that one variable of a declaration binds. -/
def Tree.declaratorNames : Tree script → List String
  | .declarator target _ _ => target.boundNames
  | _ => []

mutual

/-- The names that a declaration declares. -/
def Tree.declaredNames : Tree script → List String
  | .variableDeclaration declarators => declarators.flatMap Tree.declaratorNames
  | .ambient parts => declaredByTrees parts
  | .declared name _ => [name]
  | _ => []

/-- The names that several declarations declare. -/
def declaredByTrees : List (Tree script) → List String
  | [] => []
  | tree :: trees => tree.declaredNames ++ declaredByTrees trees

end

/-! ### Facts -/

/-- An import or an export, at a place in the text. -/
inductive Fact (script : List Char) where
  | imports (left : Nat) (source : Quoted script) (specifiers : List Specifier) (kind : ImportKind)
  | exports (left : Nat) (name : String)

/-- The module that a literal names. -/
def Tree.moduleName? : Tree script → Option (Quoted script)
  | .literal quoted => quoted
  | _ => none

/-- How a call loads a module, if it does. -/
def Tree.loads? : Tree script → Option ImportKind
  | .name "require" => some .require
  | .importWord => some .dynamic
  | _ => none

/-- The binding of a module that is loaded as the value of a variable. Patterns take the module
apart. -/
def Tree.holder : Tree script → List Specifier
  | .name text => [.entire text]
  | .pattern _ => [.entire "*"]
  | _ => [.sideEffect]

/-- The import by a call, when the module has a name. -/
def callFacts (left : Nat) (callee : Tree script) (arguments : List (Tree script))
    (held : List Specifier) : List (Fact script) :=
  match callee.loads?, arguments.head?.bind Tree.moduleName? with
  | some kind, some source =>
    [.imports left source (if kind = .require then held else [.sideEffect]) kind]
  | _, _ => []

/-- The import of a statement, when the module has a name. Where nothing is bound, the module is
loaded for its effect. -/
def moduleFacts (left : Nat) (source : Option (Quoted script)) (specifiers : List Specifier)
    (kind : ImportKind) : List (Fact script) :=
  source.toList.map fun source =>
    .imports left source (if specifiers.isEmpty then [.sideEffect] else specifiers) kind

/-- The import of an import statement. -/
def importFacts (left : Nat) (clause : ImportClause script) : List (Fact script) :=
  moduleFacts left clause.source clause.specifiers (if clause.required then .require else .static)

/-- The import of a statement that exports names of another module. -/
def reExportFacts (left : Nat) (source : Option (Quoted script)) (specifiers : List Specifier) :
    List (Fact script) :=
  moduleFacts left source specifiers .reExport

/-- The facts of an export statement, apart from those in its parts. -/
def exportFacts (left : Nat) (parts : List (Tree script)) : ExportClause script → List (Fact script)
  | .asDefault => [.exports left "default"]
  | .declaration => (declaredByTrees parts).map (.exports left)
  | .listed names source =>
    names.map (fun (_, name) => .exports left name) ++
      reExportFacts left source (names.map fun (a, b) => .named a b)
  | .all (some name) source =>
    if source.isNone then []
    else .exports left name :: reExportFacts left source [.namespaceAs name]
  | .all none source => reExportFacts left source [.namespaceAs "*"]
  | .nothing => []

mutual

/-- The facts in a tree. -/
def Tree.facts : Tree script → List (Fact script)
  | .call left callee types arguments =>
    callFacts left callee arguments [.sideEffect] ++ callee.facts ++ factsOfTrees types ++
      factsOfTrees arguments
  | .declarator target type [.call left callee types arguments] =>
    target.facts ++ factsOfTrees type ++ callFacts left callee arguments target.holder ++
      callee.facts ++ factsOfTrees types ++ factsOfTrees arguments
  | .declarator target type value => target.facts ++ factsOfTrees type ++ factsOfTrees value
  | .importing left clause => importFacts left clause
  | .exporting left clause parts => exportFacts left parts clause ++ factsOfTrees parts
  | .template parts => factsOfTrees parts
  | .binds before target after => factsOfTrees before ++ target.facts ++ factsOfTrees after
  | .pattern parts => factsOfTrees parts
  | .variableDeclaration declarators => factsOfTrees declarators
  | .declared _ parts => factsOfTrees parts
  | .ambient parts => factsOfTrees parts
  | .group parts => factsOfTrees parts
  | _ => []

/-- The facts in several trees. -/
def factsOfTrees : List (Tree script) → List (Fact script)
  | [] => []
  | tree :: trees => tree.facts ++ factsOfTrees trees

end

/-! ### Modules -/

/-- The line of the place in a script from which `left` characters remain. -/
def lineOf (script : List Char) (left : Nat) : Nat :=
  Text.newlines (script.take (script.length - left)) + 1

/-- The module with one more fact. -/
def addFact (m : ModuleSyntax) : Fact script → ModuleSyntax
  | .imports left source specifiers kind =>
    m.addImport ⟨.ofList source.chars, specifiers, kind, lineOf script left⟩
  | .exports left name => m.addExport ⟨name, lineOf script left⟩

/-- The imports and exports of a script. -/
def scanChars (dialect : Dialect) (script : List Char) : ModuleSyntax :=
  (factsOfTrees (program dialect script)).foldl addFact .empty

/-- The imports and exports of a script. -/
def scan (dialect : Dialect) (text : String) : ModuleSyntax := scanChars dialect text.toList

end DeadCode.Script
