import DeadCode.Framework.Kind
import DeadCode.Manifest.Package
import DeadCode.Ordered.Arrival
import DeadCode.Project.Basic
import DeadCode.Resolver.Script

/-!
# DeadCode.Project.Manifests

What the package manifests of a project say: the files that a package starts from, the frameworks it
is built on, and the packages it depends on. A manifest that cannot be read says nothing.
-/

namespace DeadCode

open Text

/-- A dependency and the manifest that declares it. -/
structure DeclaredDependency where
  dependency : Dependency
  manifest : String
  deriving DecidableEq

/-- The manifests of a project, read. -/
structure Manifests where
  /-- The paths of the manifests, also of those that cannot be read. -/
  paths : List String
  /-- The frameworks to which a dependency belongs. -/
  frameworks : List Framework
  entryPoints : StringSet
  dependencies : List DeclaredDependency
  /-- The commands of the scripts. -/
  commands : List String

namespace Manifests

/-! ### Reading -/

/-- The manifest at a path, if it can be read. -/
def package? (p : Project) (path : String) : Option Package :=
  (p.content? path).bind fun text => (Package.parse text).toOption

/-- The files that a manifest in `dir` names, as entry files or as words of a command. -/
def entryFiles (r : Resolver) (dir : String) (package : Package) : List String :=
  (package.entryFields ++ package.commands.flatMap Package.fileWords).filterMap (r.entryFile? dir)

/-- The manifests of a project. -/
def ofProject (p : Project) : Manifests :=
  let paths := p.paths.filter Path.isManifest
  let packages := paths.filterMap fun path => (package? p path).map (path, ·)
  let dependencies := packages.flatMap fun (path, package) =>
    package.allDependencies.map (DeclaredDependency.mk · path)
  { paths
    frameworks := Arrival.addAll []
      (dependencies.filterMap fun d => Framework.ofPackage? d.dependency.name)
    entryPoints := .ofList (packages.flatMap fun (path, package) =>
      entryFiles p.resolver (Path.parent path) package)
    dependencies
    commands := packages.flatMap fun (_, package) => package.commands }

/-! ### Unused dependencies -/

/-- The texts in which a dependency may be mentioned: those of all files but manifests and lock
files. -/
def searchedTexts (p : Project) : List (List Char) :=
  (p.texts.filter fun (path, _) => !Path.isManifest path && !Path.isLockFile path).map
    fun (_, text) => text.toList

/-- How an import of a package is written: its name in quotes, or between a quote and a slash. -/
def quotedForms (name : String) : List (List Char) :=
  ['\'', '"', '`'].flatMap fun q =>
    [q :: name.toList ++ [q], q :: name.toList ++ ['/']]

/-- Whether the commands or the texts mention a package: as a word of a command, there also without
its scope, or as the name of an import. -/
def mentions (commandWords : List (List Char)) (texts : List (List Char)) (name : String) : Bool :=
  commandWords.contains name.toList || commandWords.contains (Path.fileName name).toList ||
    texts.any fun text => (quotedForms name).any (occursIn · text)

/-- Whether a dependency is used. Types are used with the package that they describe, and wherever
there is TypeScript. -/
def isUsed (typed : Bool) (mentioned : String → Bool) (d : Dependency) : Bool :=
  match d.typedPackage? with
  | some package => typed || mentioned package || mentioned d.name
  | none => mentioned d.name

/-- The declared dependencies that are reported as unused. -/
def unused (m : Manifests) (p : Project) : List DeclaredDependency :=
  let mentioned := mentions (m.commands.flatMap fun c => words c.toList) (searchedTexts p)
  let typed := p.hasTyped
  m.dependencies.filter fun d =>
    d.dependency.kind.isReported && !isUsed typed mentioned d.dependency

end Manifests

end DeadCode
