import DeadCode.Project.Aliases
import DeadCode.Project.Scope
import DeadCode.Script.Component
import DeadCode.Syntax.Python

/-!
# DeadCode.Project.Basic

A project: its files by path, scanned, with the resolver of its imports. It is built once
(`Project.ofFiles`) and everything else is computed from it.
-/

namespace DeadCode

open Text

/-- The files of a project and what is known about each of them. -/
structure Project where
  config : Config
  /-- The files by path. -/
  nodes : Project.Nodes
  root : String
  /-- The directories with a manifest, longest first. -/
  packageRoots : List String
  resolver : Resolver
  /-- The imports and exports of the files that have been scanned. -/
  modules : StringMap ModuleSyntax
  /-- The files that are too large to be scanned. -/
  skipped : StringSet

namespace Project

/-! ### Building -/

/-- The files among some nodes, by path with slashes. Of several files with one path the first one
counts, and a file without a path does not. -/
def nodesOf (files : List SourceNode) : Nodes :=
  files.foldl
    (fun nodes node =>
      let path := Path.withSlashes node.path
      if node.isFile && !path.isEmpty then nodes.insertIfNew path node else nodes)
    .empty

/-- Whether a text is too large to be scanned. -/
def exceedsLimits (config : Config) (text : String) : Bool :=
  text.utf8ByteSize > config.maxFileBytes || (lines text.toList).length > config.maxFileLines

/-- The text of a file that has to be scanned: a source file with content and without hints. -/
def textToScan? (path : String) (node : SourceNode) : Option String :=
  if node.hasHints || !Path.isSource path then none else node.text?

/-- The imports and exports in the text of a source file. -/
def scanText? (path text : String) : Option ModuleSyntax :=
  if Path.isPython path then some (Python.scan text)
  else if Path.isComponent path then some (Script.scanComponent text)
  else ((Path.extension? path).bind Script.Dialect.ofExtension?).map (Script.scan · text)

/-- The imports and exports of a file: its hints, or else what is found in its text. -/
def moduleOf? (config : Config) (path : String) (node : SourceNode) : Option ModuleSyntax :=
  if node.hasHints then some (.ofHints node.importsHint node.exportsHint)
  else ((textToScan? path node).filter (!exceedsLimits config ·)).bind (scanText? path)

/-- Whether a file is not scanned because it is too large. -/
def isSkipped (config : Config) (path : String) (node : SourceNode) : Bool :=
  (textToScan? path node).any (exceedsLimits config)

/-- The project of some files by path. -/
def ofNodes (config : Config) (nodes : Nodes) : Project :=
  let manifests := nodes.keys.filter Path.isManifest
  let root := rootOf nodes.keys manifests
  let packageRoots := packageRootsOf manifests
  { config, nodes, root, packageRoots
    resolver := resolverOf config nodes root packageRoots
    modules := nodes.filterMap (moduleOf? config)
    skipped := (nodes.filterMap fun path node =>
      if isSkipped config path node then some () else none).keySet }

/-- The project of some nodes. -/
def ofFiles (config : Config) (files : List SourceNode) : Project := ofNodes config (nodesOf files)

/-! ### Files -/

/-- The paths of the files in increasing order. -/
def paths (p : Project) : List String := p.nodes.keys

/-- The content of a file; an empty one counts as none. -/
def content? (p : Project) (path : String) : Option String :=
  (p.nodes.find? path).bind SourceNode.text?

/-- The files that have content. -/
def texts (p : Project) : List (String × String) :=
  p.nodes.toList.filterMap fun (path, node) => node.text?.map (path, ·)

/-- The imports and exports of a file. -/
def module? (p : Project) (path : String) : Option ModuleSyntax := p.modules.find? path

/-- Whether there is a TypeScript file. -/
def hasTyped (p : Project) : Bool := p.paths.any Path.isTyped

/-! ### Packages -/

/-- A path as seen from the root. -/
def relative (p : Project) (path : String) : String := Path.relativeTo p.root path

/-- The deepest package that holds a path, or the root. -/
def packageRoot (p : Project) (path : String) : String :=
  (p.packageRoots.find? (Path.isWithin path)).getD p.root

/-- A path as seen from its package. -/
def packageRelative (p : Project) (path : String) : String :=
  Path.relativeTo (p.packageRoot path) path

end Project

end DeadCode
