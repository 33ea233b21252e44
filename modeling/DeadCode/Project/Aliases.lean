import DeadCode.Config
import DeadCode.Graph.Explore
import DeadCode.Manifest.CompilerConfig
import DeadCode.Path.Tooling
import DeadCode.Resolver.Basic
import DeadCode.SourceNode

/-!
# DeadCode.Project.Aliases

The aliases and base directories of a project's resolver. They come from the configuration of the
analysis and from the compiler configurations of the project, which inherit from each other.
-/

namespace DeadCode.Project

open Text

/-- The files of a project by path. -/
abbrev Nodes := StringMap SourceNode

/-- The target of an alias seen from `base`. A target that is a directory keeps the slash at its
end, behind which the rest of an import is put. -/
def aliasTarget? (base target : String) : Option String :=
  (Path.join? base target).map fun joined =>
    if (target.isEmpty || target.toList.getLast? == some '/') && !joined.isEmpty then joined ++ "/"
    else joined

/-! ### The configuration of the analysis -/

/-- The directories from which configured aliases are seen: the packages, then the root. -/
def aliasBases (root : String) (packageRoots : List String) : List String :=
  if packageRoots.contains root then packageRoots else packageRoots ++ [root]

/-- The aliases that the configuration gives. -/
def configuredAliases (config : Config) (bases : List String) : List Alias :=
  config.pathAliases.toList.map fun (beginning, targets) =>
    ⟨beginning, bases.flatMap fun base => targets.filterMap (aliasTarget? base), false⟩

/-! ### Compiler configurations -/

/-- The names of compiler configurations. -/
def compilerConfigNames : List String := ["tsconfig.json", "jsconfig.json"]

/-- Whether a path is a compiler configuration that holds for the files around it. -/
def isCompilerConfig (path : String) : Bool :=
  compilerConfigNames.contains (Path.fileName path) && !Path.isGenerated path

/-- The compiler configuration in a file, if it can be read. -/
def compilerConfig? (nodes : Nodes) (path : String) : Option CompilerConfig :=
  ((nodes.find? path).bind SourceNode.text?).bind CompilerConfig.parse

/-- The file that the configuration at `path` means by `base`. Only relative paths lead to files of
the project; the extension may be left out. -/
def baseConfig? (nodes : Nodes) (path base : String) : Option String :=
  if startsWith "./".toList base.toList || startsWith "../".toList base.toList then
    (Path.join? (Path.parent path) base).bind fun candidate =>
      [candidate, candidate ++ ".json"].find? nodes.contains
  else none

/-- The files that the configuration at `path` inherits from, the strongest first. -/
def baseConfigs (nodes : Nodes) (path : String) : List String :=
  match compilerConfig? nodes path with
  | some config => (config.bases.filterMap (baseConfig? nodes path)).reverse
  | none => []

/-- The configuration at `path` and all that it inherits from at any distance, strongest first. -/
def configChain (nodes : Nodes) (path : String) : List (String × CompilerConfig) :=
  (explore (baseConfigs nodes) nodes.keys [path]).filterMap fun p =>
    (compilerConfig? nodes p).map (p, ·)

/-- The base directory of a chain: the first one that is given and lies inside the project. -/
def chainBase? (chain : List (String × CompilerConfig)) : Option String :=
  chain.findSome? fun (owner, config) =>
    config.baseUrl.bind (Path.join? (Path.parent owner))

/-- The configuration of a chain whose path mappings hold. -/
def chainOwner? (chain : List (String × CompilerConfig)) : Option (String × CompilerConfig) :=
  chain.find? fun (_, config) => config.paths.isSome

/-- The aliases of a chain. The targets are seen from the base directory or, if there is none, from
the directory of the configuration that maps them. -/
def chainAliases (chain : List (String × CompilerConfig)) : List Alias :=
  match chainOwner? chain with
  | none => []
  | some (owner, config) =>
    match chainBase? chain <|> Path.join? (Path.parent owner) "." with
    | none => []
    | some base => config.mappings.map fun m =>
        ⟨m.beginning, m.targets.filterMap (aliasTarget? base), !m.wildcard⟩

/-- The resolver with the base directory and the aliases of a chain. -/
def addChain (r : Resolver) (chain : List (String × CompilerConfig)) : Resolver :=
  (chainAliases chain).foldl Resolver.addAlias ((chainBase? chain).toList.foldl Resolver.addBase r)

/-! ### The resolver -/

/-- The resolver of a project. -/
def resolverOf (config : Config) (nodes : Nodes) (root : String) (packageRoots : List String) :
    Resolver :=
  let r := (configuredAliases config (aliasBases root packageRoots)).foldl Resolver.addAlias
    (.ofFiles nodes.keySet root)
  ((nodes.keys.filter isCompilerConfig).map (configChain nodes)).foldl addChain r

end DeadCode.Project
