import DeadCode.Ordered.StringSet
import DeadCode.Path.Clean
import DeadCode.Path.Language

/-!
# DeadCode.Resolver.Basic

A resolver knows the files of a project and says which of them an import leads to. It never looks at
a file system: an import leads to a known file or to none. `Resolver.probe?` is the last step of
every resolution, from a path as it is written in an import to a file.
-/

namespace DeadCode

open Text

/-! ### Aliases -/

/-- Imports that begin with `beginning` lead to `targets`, the rest of the import put behind. -/
structure Alias where
  beginning : String
  targets : List String
  /-- Whether only the import `beginning` itself is meant. -/
  exact : Bool
  deriving DecidableEq

namespace Alias

/-- What is left of an import behind the alias, when the alias is for it. -/
def rest? (a : Alias) (spec : String) : Option String :=
  if a.exact then (if spec = a.beginning then some "" else none)
  else (dropPrefix? a.beginning.toList spec.toList).map String.ofList

/-- The clean paths that the alias gives for an import, in the order of the targets. -/
def candidates (a : Alias) (spec : String) : List String :=
  match a.rest? spec with
  | none => []
  | some rest =>
    a.targets.filterMap fun target =>
      Path.clean? (if rest.isEmpty then Path.dropSlashes target else target ++ rest)

/-- Put an alias behind those whose beginning is at least as long. -/
def insertInto (a : Alias) : List Alias → List Alias
  | [] => [a]
  | b :: bs =>
    if b.beginning.utf8ByteSize < a.beginning.utf8ByteSize then a :: b :: bs
    else b :: insertInto a bs

end Alias

/-! ### Resolvers -/

/-- The files of a project and where imports are looked up. -/
structure Resolver where
  files : StringSet
  /-- The directory that an import with a leading slash starts from. -/
  root : String
  /-- The aliases, longest beginning first. -/
  aliases : List Alias
  /-- The directories in which other imports are looked up. -/
  bases : List String

namespace Resolver

/-- A resolver without aliases and base directories. -/
def ofFiles (files : StringSet) (root : String) : Resolver := ⟨files, root, [], []⟩

/-- The resolver with one more alias. -/
def addAlias (r : Resolver) (a : Alias) : Resolver :=
  if r.aliases.contains a then r else { r with aliases := a.insertInto r.aliases }

/-- The resolver with one more base directory. -/
def addBase (r : Resolver) (dir : String) : Resolver :=
  if r.bases.contains dir then r else { r with bases := r.bases ++ [dir] }

/-- Whether a path is a known file. -/
def contains (r : Resolver) (path : String) : Bool := r.files.contains path

/-- The path itself when it is a known file. -/
def known? (r : Resolver) (path : String) : Option String :=
  if r.contains path then some path else none

/-! ### Probing -/

/-- The extensions that an import may leave out. -/
def probedExtensions : List String := Path.scriptExtensions ++ ["vue", "svelte", "json"]

/-- The extensions of the sources from which a file with the extension `ext` is compiled. -/
def sourceExtensions (ext : List Char) : List String :=
  if ext = "js".toList then ["ts", "tsx"]
  else if ext = "jsx".toList then ["tsx"]
  else if ext = "mjs".toList then ["mts"]
  else if ext = "cjs".toList then ["cts"]
  else []

/-- The sources from which `path` may be compiled. -/
def compiledFrom (path : String) : List String :=
  match cutLast '.' path.toList with
  | some (stem, ext) =>
    if stem.isEmpty || stem.getLast? == some '/' then []
    else (sourceExtensions ext).map fun source => .ofList stem ++ "." ++ source
  | none => []

/-- The files that a path may mean, the first one that is known counting: the path itself, a source
of it, the path with an extension, and an index file in the directory of that name. -/
def meanings (path : String) : List String :=
  path :: compiledFrom path ++ probedExtensions.map (path ++ "." ++ ·) ++
    probedExtensions.map (path ++ "/index." ++ ·)

/-- The file that a path means, slashes at its end apart. -/
def probe? (r : Resolver) (path : String) : Option String :=
  let path := Path.dropSlashes path
  if path.isEmpty then none else (meanings path).find? r.contains

end Resolver

end DeadCode
