/-!
# DeadCode.Usage.Edge

How one file reaches another.
-/

namespace DeadCode

/-- The form of an import, in the order in which importers are listed. -/
inductive EdgeKind where
  /-- Names taken out of a module. -/
  | named
  /-- The default export. -/
  | defaultExport
  /-- A module as a whole. -/
  | wholeModule
  /-- An import that is evaluated while the program runs. -/
  | dynamic
  /-- A call of `require`. -/
  | require
  /-- An import for its effects only. -/
  | sideEffect
  /-- An export of another module's names. -/
  | reExport
  deriving DecidableEq, Inhabited

namespace EdgeKind

/-- Every kind, in order. -/
def all : List EdgeKind :=
  [.named, .defaultExport, .wholeModule, .dynamic, .require, .sideEffect, .reExport]

/-- The name of a kind. -/
def name : EdgeKind → String
  | .named => "named"
  | .defaultExport => "default"
  | .wholeModule => "namespace"
  | .dynamic => "dynamic"
  | .require => "require"
  | .sideEffect => "side_effect"
  | .reExport => "re_export"

/-- The kind of that name. -/
def ofName? (s : String) : Option EdgeKind := all.find? (·.name == s)

/-- The place of a kind in the order. -/
def rank : EdgeKind → Nat
  | .named => 0
  | .defaultExport => 1
  | .wholeModule => 2
  | .dynamic => 3
  | .require => 4
  | .sideEffect => 5
  | .reExport => 6

end EdgeKind

/-- An import of one project file that resolved to another. -/
structure ImportEdge where
  source : String
  target : String
  /-- The names that are taken out of the target. -/
  names : List String
  kind : EdgeKind
  deriving DecidableEq

end DeadCode
