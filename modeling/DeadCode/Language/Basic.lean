import DeadCode.Language.Marker
import DeadCode.Project.Basic
import DeadCode.Resolver.Python
import DeadCode.Resolver.Script
import DeadCode.Usage.Basic

/-!
# DeadCode.Language.Basic

The languages of a project. A language owns files by their extension, knows which of them are run
without being imported, and resolves their imports. From this follows its `Usage`.
-/

namespace DeadCode

/-- A source language. Single-file components belong to JavaScript. -/
inductive Language where
  | javaScript
  | python
  deriving DecidableEq, Inhabited

namespace Language

/-- Every language. -/
def all : List Language := [.javaScript, .python]

/-- The name of a language. -/
def name : Language → String
  | .javaScript => "javascript"
  | .python => "python"

/-- Whether a file is of the language. -/
def owns : Language → String → Bool
  | .javaScript, path => Path.isScript path || Path.isComponent path
  | .python, path => Path.isPython path

/-! ### Entry points -/

/-- The stems of JavaScript files that start a program. -/
def scriptEntryStems : List String := ["index", "main", "app", "server", "cli"]

/-- The directories of a package in which such a file starts a program. -/
def scriptEntryDirectories : List String := ["src", "bin", "lib", "scripts", "server", "cli"]

/-- The stems of Python files that start a program. -/
def pythonEntryStems : List String := [
  "__main__", "main", "app", "manage", "wsgi", "asgi", "cli", "server", "run", "setup", "conftest"
]

/-- Whether a script starts a program by its name and its place in the package, `relative`. -/
def isScriptEntry (path relative : String) : Bool :=
  Path.isScript path && scriptEntryStems.contains (Path.stem path) &&
    match Path.segments relative with
    | [_] => true
    | [dir, _] => scriptEntryDirectories.contains dir
    | _ => false

/-- Whether a file of the language is run without being imported. -/
def isEntry (l : Language) (p : Project) (path : String) : Bool :=
  match l with
  | .javaScript =>
    Path.isTestOrStory path || isScriptEntry path (p.packageRelative path) ||
      (Path.isScript path && (p.content? path).any isScriptProgram)
  | .python =>
    Path.fileName path == "__init__.py" || pythonEntryStems.contains (Path.stem path) ||
      Path.isTestModule path || (p.content? path).any isPythonProgram

/-- The files of the language that are run without being imported. -/
def entryPoints (l : Language) (p : Project) : List String :=
  p.paths.filter fun path => l.owns path && l.isEntry p path

/-! ### Usage -/

/-- The files to which an import of a file leads. -/
def resolve (l : Language) (r : Resolver) (path : String) (i : Import) : List String :=
  match l with
  | .javaScript => (r.script? path i.source).toList
  | .python => r.python path i.source i.namedImports

/-- The edges of an import; a file does not import itself. -/
def edgesOf (l : Language) (r : Resolver) (path : String) (i : Import) : List ImportEdge :=
  ((l.resolve r path i).filter (· ≠ path)).map fun target =>
    ⟨path, target, i.exportedNames, i.edgeKind⟩

/-- What a file of the language adds to what is known. -/
def addFile (l : Language) (p : Project) (u : Usage) (path : String) : Usage :=
  match p.module? path with
  | none => u
  | some m =>
    ((m.imports.flatMap (l.edgesOf p.resolver path)).foldl Usage.addEdge u).setExports path
      m.exportNames

/-- The use of files as far as the language knows it. -/
def usage (l : Language) (p : Project) : Usage :=
  (p.paths.filter l.owns).foldl (l.addFile p)
    ((l.entryPoints p).foldl Usage.addEntryPoint .empty)

end Language

end DeadCode
