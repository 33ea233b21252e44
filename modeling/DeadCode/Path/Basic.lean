import DeadCode.Text.Basic

/-!
# DeadCode.Path.Basic

Paths are strings whose segments are divided by `/`. They are taken as they are written: no
operation here looks at a file system, and an unusual spelling (`a//b`, `./a`) stays a path of its
own. `Path.clean?` in `DeadCode.Path.Clean` is where spellings are brought together.
-/

namespace DeadCode.Path

open Text

/-! ### Parts of a path -/

/-- The directory part, `""` for a bare file name. -/
def parent (path : String) : String :=
  match cutLast '/' path.toList with
  | some (dir, _) => .ofList dir
  | none => ""

/-- The last segment. -/
def fileName (path : String) : String :=
  match cutLast '/' path.toList with
  | some (_, name) => .ofList name
  | none => path

/-- The file name up to its first dot: `Button.test.tsx` has the stem `Button`. -/
def stem (path : String) : String :=
  .ofList ((fileName path).toList.takeWhile (· ≠ '.'))

/-- What follows the last dot of the file name, when that is not empty. -/
def extension? (path : String) : Option String :=
  match cutLast '.' (fileName path).toList with
  | some (_, []) => none
  | some (_, ext) => some (.ofList ext)
  | none => none

/-- The segments between the slashes. -/
def segments (path : String) : List String :=
  (splitOn '/' path.toList).map String.ofList

/-- The segments above the last one. -/
def directories (path : String) : List String := (segments path).dropLast

/-- Whether some `/`-divided segment is `name`. -/
def hasSegment (path name : String) : Bool := (segments path).contains name

/-! ### Containment -/

/-- What is left of `path` below the directory `dir`. -/
def below? (dir path : String) : Option String :=
  (dropPrefix? (dir.toList ++ ['/']) path.toList).map String.ofList

/-- Whether `path` lies in the directory `dir`, at any depth; everything lies in `""`. -/
def isWithin (path dir : String) : Bool :=
  dir.isEmpty || (below? dir path).isSome

/-- The path as seen from `dir`; a path that does not lie in `dir` stays as it is. -/
def relativeTo (dir path : String) : String :=
  if dir.isEmpty then path else (below? dir path).getD path

/-! ### Spelling -/

/-- The path with every backslash turned into a slash. -/
def withSlashes (path : String) : String :=
  .ofList (path.toList.map fun c => if c = '\\' then '/' else c)

/-- The path without the slashes at its end. -/
def dropSlashes (path : String) : String :=
  .ofList (dropEndWhile (· == '/') path.toList)

end DeadCode.Path
