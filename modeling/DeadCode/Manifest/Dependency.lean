import DeadCode.Text.Basic

/-!
# DeadCode.Manifest.Dependency

Packages that a manifest declares as its dependencies.
-/

namespace DeadCode

open Text

/-- The table of a manifest in which a dependency stands, in the order of the tables. -/
inductive DependencyKind where
  | production
  | development
  | peer
  | optional
  deriving DecidableEq, Inhabited

namespace DependencyKind

/-- The name of a kind. -/
def name : DependencyKind → String
  | .production => "production"
  | .development => "development"
  | .peer => "peer"
  | .optional => "optional"

/-- Whether an unused dependency of this kind is reported. What a package expects its users to bring
along need not be used in it. -/
def isReported (kind : DependencyKind) : Bool := kind != .peer

end DependencyKind

/-- A declared dependency. -/
structure Dependency where
  name : String
  version : String
  kind : DependencyKind
  deriving DecidableEq

namespace Dependency

/-- The dependency in one line. -/
def describe (d : Dependency) : String :=
  d.name ++ "@" ++ d.version ++ " (" ++ d.kind.name ++ ")"

/-- The text before and after the first two underscores. -/
def cutScope : List Char → Option (List Char × List Char)
  | '_' :: '_' :: cs => some ([], cs)
  | c :: cs => (cutScope cs).map fun (scope, package) => (c :: scope, package)
  | [] => none

/-- The package whose types a dependency provides: `x` for `@types/x`, `@scope/x` for
`@types/scope__x`. -/
def typedPackage? (d : Dependency) : Option String :=
  (dropPrefix? "@types/".toList d.name.toList).map fun rest =>
    match cutScope rest with
    | some (scope, package) => .ofList ('@' :: scope ++ '/' :: package)
    | none => .ofList rest

end Dependency

end DeadCode
