import DeadCode.SourceNode

/-!
# DeadCode.FileTree

Directory trees. `FileTree.load` turns the tree of a project into the files that are analysed;
`FileTree.find?` follows a path through a tree.
-/

namespace DeadCode

open Text

/-- A file with its bytes, or a directory with its entries. -/
inductive FileTree where
  | file (bytes : ByteArray)
  | directory (entries : List (String × FileTree))

namespace FileTree

instance : Inhabited FileTree := ⟨.directory []⟩

/-- The entries of a directory. -/
def entries? : FileTree → Option (List (String × FileTree))
  | .directory entries => some entries
  | .file _ => none

/-! ### Building -/

/-- Change the entry of that name, or add one. -/
def alterEntry (name : String) (f : Option FileTree → FileTree) :
    List (String × FileTree) → List (String × FileTree)
  | [] => [(name, f none)]
  | (n, t) :: rest => if n = name then (n, f (some t)) :: rest else (n, t) :: alterEntry name f rest

/-- Change what stands at a path. Directories on the way are made where there are none. -/
def alter : List String → (Option FileTree → FileTree) → Option FileTree → FileTree
  | [], f, tree => f tree
  | name :: rest, f, tree =>
    .directory (alterEntry name (alter rest f) ((tree.bind entries?).getD []))

/-- The tree with a file at a path. -/
def addFile (tree : FileTree) (path : String) (bytes : ByteArray) : FileTree :=
  alter (Path.segments path) (fun _ => .file bytes) (some tree)

/-- The tree with a directory at a path. -/
def addDirectory (tree : FileTree) (path : String) : FileTree :=
  alter (Path.segments path) (fun old => .directory ((old.bind entries?).getD [])) (some tree)

/-! ### Following paths -/

/-- What stands at a place that is given by the names from the root on. -/
def at? : FileTree → List String → Option FileTree
  | tree, [] => some tree
  | tree, name :: rest =>
    match tree.entries?.bind (·.lookup name) with
    | some t => at? t rest
    | none => none

/-- One step from a directory: to an entry, upwards for `..`, and nowhere for `.`. There is nothing
above the root. -/
def step? (tree : FileTree) (place : List String) (segment : String) : Option (List String) :=
  match (tree.at? place).bind entries? with
  | none => none
  | some entries =>
    if segment.isEmpty || segment = "." then some place
    else if segment = ".." then some place.dropLast
    else if (entries.lookup segment).isSome then some (place ++ [segment])
    else none

/-- The place to which a path leads from the directory at `start`. A path with a leading slash
starts at the root. -/
def follow? (tree : FileTree) (start : List String) (path : String) : Option (List String) :=
  if path.isEmpty then none
  else
    (Path.segments path).foldlM (step? tree) (if startsWith ['/'] path.toList then [] else start)

/-- What a path leads to from the directory at `start`. -/
def find? (tree : FileTree) (start : List String) (path : String) : Option FileTree :=
  (tree.follow? start path).bind tree.at?

/-! ### Loading -/

/-- The extensions of the files that take part in an analysis. -/
def loadedExtensions : List String := [
  "js", "jsx", "mjs", "cjs", "ts", "tsx", "mts", "cts", "vue", "svelte", "py", "pyi", "json",
  "html", "yml", "yaml", "toml"
]

/-- The directories that are never entered. -/
def ignoredDirectories : List String := [
  "node_modules", ".git", ".hg", ".svn", "dist", "build", "out", ".next", ".nuxt", ".output",
  ".svelte-kit", "coverage", ".turbo", ".vercel", ".cache", "__pycache__", ".venv", "venv",
  "site-packages", "target"
]

/-- Whether a file of that name takes part in an analysis. A name that has its only dot at its start
has no extension. -/
def isLoaded (name : String) : Bool :=
  match cutLast '.' name.toList with
  | some (stem, ext) => !stem.isEmpty && loadedExtensions.contains (.ofList ext)
  | none => false

/-- Whether a directory of that name is left out. -/
def isIgnored (name : String) : Bool := ignoredDirectories.contains name

/-- A file of a project. Bytes that are no UTF-8 text count as no content. -/
def nodeOf (path : String) (bytes : ByteArray) : SourceNode :=
  { path := Path.withSlashes path, content := String.fromUTF8? bytes }

mutual

/-- The files of a project in what stands at `path`. -/
def nodesAt (path name : String) : FileTree → List SourceNode
  | .file bytes => if isLoaded name then [nodeOf path bytes] else []
  | .directory entries => if isIgnored name then [] else nodesBelow (path ++ "/") entries
termination_by structural t => t

/-- The files of a project in the entries of a directory whose path, up to its slash, is `dir`. -/
def nodesBelow (dir : String) : List (String × FileTree) → List SourceNode
  | [] => []
  | (name, tree) :: rest => nodesAt (dir ++ name) name tree ++ nodesBelow dir rest
termination_by structural l => l

end

/-- Why a project cannot be loaded. -/
inductive LoadError where
  | notFound
  | notADirectory
  deriving DecidableEq

/-- The wording of the error for a path. -/
def LoadError.message (path : String) : LoadError → String
  | .notFound => "Project directory not found: " ++ path
  | .notADirectory => "Not a directory: " ++ path

/-- The files of a project in increasing order of their paths, which are seen from the project's
directory. -/
def load : Option FileTree → Except LoadError (List SourceNode)
  | none => .error .notFound
  | some (.file _) => .error .notADirectory
  | some (.directory entries) =>
    .ok ((nodesBelow "" entries).mergeSort fun a b => a.path ≤ b.path)

end FileTree

end DeadCode
