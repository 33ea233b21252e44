import DeadCode.Ordered.StringSet
import DeadCode.Path.Basic

/-!
# DeadCode.Project.Scope

The directories that a project is divided into: its root, which is the deepest directory that holds
everything, and its packages, which are the directories that hold a manifest.
-/

namespace DeadCode.Project

open Text

/-- The longest list that both lists start with. -/
def commonPrefix : List String → List String → List String
  | x :: xs, y :: ys => if x = y then x :: commonPrefix xs ys else []
  | _, _ => []

/-- The segments of the directory of a path. -/
def directorySegments (path : String) : List String := Path.segments (Path.parent path)

/-- The deepest directory that holds every path. -/
def commonDirectory : List String → String
  | [] => ""
  | path :: paths =>
    "/".intercalate <|
      (paths.map directorySegments).foldl commonPrefix (directorySegments path)

/-- The root of a project with these files and, among them, these manifests. Without a manifest,
relative paths are taken to start at the root. -/
def rootOf (paths manifests : List String) : String :=
  if !manifests.isEmpty then commonDirectory manifests
  else if paths.all fun p => startsWith ['/'] p.toList then commonDirectory paths
  else ""

/-- The directories of the manifests, longest first and, among those of one length, in increasing
order. -/
def packageRootsOf (manifests : List String) : List String :=
  (StringSet.ofList (manifests.map Path.parent)).toList.mergeSort fun a b =>
    b.utf8ByteSize ≤ a.utf8ByteSize

end DeadCode.Project
