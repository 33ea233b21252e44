import DeadCode.Resolver.Basic

/-!
# DeadCode.Resolver.Script

Imports of JavaScript and TypeScript files, and the entry files that a package manifest names.
-/

namespace DeadCode.Resolver

open Text

/-! ### Imports -/

/-- Whether an import is relative to the file in which it is written. -/
def isRelative (spec : String) : Bool :=
  spec == "." || spec == ".." || startsWith "./".toList spec.toList ||
    startsWith "../".toList spec.toList

/-- The paths that an import which is neither relative nor rooted may mean: those of the aliases,
then those below the base directories. -/
def candidates (r : Resolver) (spec : String) : List String :=
  r.aliases.flatMap (·.candidates spec) ++ r.bases.filterMap (Path.join? · spec)

/-- The file that the import `spec` of the file `source` leads to. What follows a question mark is
for the bundler and plays no part. -/
def script? (r : Resolver) (source spec : String) : Option String :=
  let spec := String.ofList (spec.toList.takeWhile (· ≠ '?'))
  if spec.isEmpty then none
  else if isRelative spec then (Path.join? (Path.parent source) spec).bind r.probe?
  else
    match dropPrefix? ['/'] spec.toList with
    | some rest => r.probe? spec <|> (Path.join? r.root (.ofList rest)).bind r.probe?
    | none => (r.candidates spec).findSome? r.probe?

/-! ### Entries of manifests -/

/-- Directories into which packages are compiled. -/
def outputDirectories : List String := ["dist", "build", "lib", "out", "esm", "cjs"]

/-- The path under `src` that stands for a path in a directory of compiled output. -/
def sourceOf? (entry : List Char) : Option String :=
  match cutFirst '/' entry with
  | some (first, rest) =>
    if outputDirectories.contains (.ofList first) then some ("src/" ++ .ofList rest) else none
  | none => none

/-- The file that `path` or, failing that, `path` without its extension means. -/
def probeStem? (r : Resolver) (path : String) : Option String :=
  r.probe? path <|> (cutLast '.' path.toList).bind fun (stem, _) => r.probe? (.ofList stem)

/-- The file that an entry of the manifest in `dir` names. An entry that is compiled output leads to
its source under `src`. -/
def entryFile? (r : Resolver) (dir entry : String) : Option String :=
  let entry := dropRepeated "./".toList entry.length entry.toList
  if entry.isEmpty || entry.contains '*' then none
  else
    (Path.join? dir (.ofList entry)).bind r.probe? <|>
      (sourceOf? entry).bind fun path => (Path.join? dir path).bind r.probeStem?

end DeadCode.Resolver
