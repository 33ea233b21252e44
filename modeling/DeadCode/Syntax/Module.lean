import DeadCode.Usage.Edge

/-!
# DeadCode.Syntax.Module

What a source file imports and exports. A scanner of a language produces a `ModuleSyntax`; nothing
after it looks at the language again.
-/

namespace DeadCode

/-! ### Imports -/

/-- How an import is written. -/
inductive ImportKind where
  /-- An import statement. -/
  | static
  /-- A call of `require`. -/
  | require
  /-- A call of `import`. -/
  | dynamic
  /-- An export of another module's names. -/
  | reExport
  deriving DecidableEq, Inhabited

/-- The name of an import kind. -/
def ImportKind.name : ImportKind → String
  | .static => "static"
  | .require => "require"
  | .dynamic => "dynamic"
  | .reExport => "re_export"

/-- One binding that an import makes. -/
inductive Specifier where
  /-- The default export, bound to a name. -/
  | defaultAs (bound : String)
  /-- One export, bound to a name. -/
  | named (imported bound : String)
  /-- All exports, bound to a name. -/
  | namespaceAs (bound : String)
  /-- Nothing is bound. -/
  | sideEffect
  /-- What a call of `require` returns, bound to a name. -/
  | entire (bound : String)
  deriving DecidableEq, Inhabited

namespace Specifier

/-- The export that is asked for by name. -/
def exportedName? : Specifier → Option String
  | .defaultAs _ => some "default"
  | .named imported _ => some imported
  | _ => none

/-- The name that is bound. -/
def localName? : Specifier → Option String
  | .defaultAs n => some n
  | .named _ n => some n
  | .namespaceAs n => some n
  | .entire n => some n
  | .sideEffect => none

/-- Whether the module is taken as a whole. -/
def isWhole : Specifier → Bool
  | .namespaceAs _ | .entire _ => true
  | _ => false

/-- Whether one export is taken by name. -/
def isNamed : Specifier → Bool
  | .named _ _ => true
  | _ => false

/-- Whether the default export is taken. -/
def isDefault : Specifier → Bool
  | .defaultAs _ => true
  | _ => false

end Specifier

/-- An import as it is written in a file. -/
structure Import where
  /-- The module as it is written: `react`, `./util`, `..models`. -/
  source : String
  specifiers : List Specifier
  kind : ImportKind
  /-- The line, counted from 1; 0 for an import that came as a hint. -/
  line : Nat
  deriving DecidableEq, Inhabited

namespace Import

/-- The exports that are asked for by name. -/
def exportedNames (i : Import) : List String := i.specifiers.filterMap Specifier.exportedName?

/-- The names of a `from` import, each of which may also be a submodule. -/
def namedImports (i : Import) : List String :=
  i.specifiers.filterMap fun
    | .named imported _ => some imported
    | _ => none

/-- The kind of the edge that the import becomes once it is resolved. -/
def edgeKind (i : Import) : EdgeKind :=
  match i.kind with
  | .require => .require
  | .dynamic => .dynamic
  | .reExport => .reExport
  | .static =>
    if i.specifiers.any Specifier.isWhole then .wholeModule
    else if i.specifiers.any Specifier.isNamed then .named
    else if i.specifiers.any Specifier.isDefault then .defaultExport
    else .sideEffect

/-- Whether the import binds `name` in its file. -/
def binds (i : Import) (name : String) : Bool :=
  i.kind != .reExport && i.specifiers.any (·.localName? == some name)

/-- The import `offset` lines further down. -/
def shift (offset : Nat) (i : Import) : Import := { i with line := i.line + offset }

end Import

/-! ### Exports -/

/-- A symbol that a file offers to others. -/
structure ExportedSymbol where
  /-- The name, `default` for the default export. -/
  name : String
  line : Nat
  deriving DecidableEq, Inhabited

/-! ### Modules -/

/-- The imports and exports of a file. -/
structure ModuleSyntax where
  imports : List Import
  exports : List ExportedSymbol
  deriving DecidableEq, Inhabited

namespace ModuleSyntax

/-- The module without imports and exports. -/
def empty : ModuleSyntax := ⟨[], []⟩

/-- The module with one more import. -/
def addImport (m : ModuleSyntax) (i : Import) : ModuleSyntax :=
  { m with imports := m.imports ++ [i] }

/-- The module with one more export; a name that is exported already stays as it is. -/
def addExport (m : ModuleSyntax) (e : ExportedSymbol) : ModuleSyntax :=
  if m.exports.any (·.name == e.name) then m else { m with exports := m.exports ++ [e] }

/-- The module of a node that brings its imports and exports along. -/
def ofHints (imports exports : Option (List String)) : ModuleSyntax where
  imports := (imports.getD []).map fun source => ⟨source, [.sideEffect], .static, 0⟩
  exports := (exports.getD []).map fun name => ⟨name, 0⟩

/-- The module followed by another one, which starts `offset` lines further down. -/
def extend (m other : ModuleSyntax) (offset : Nat) : ModuleSyntax :=
  other.exports.foldl (fun m e => m.addExport { e with line := e.line + offset })
    { m with imports := m.imports ++ other.imports.map (Import.shift offset) }

/-- The names of the exports in their order. -/
def exportNames (m : ModuleSyntax) : List String := m.exports.map (·.name)

/-- The line on which `name` is exported, where it is known. -/
def exportLine? (m : ModuleSyntax) (name : String) : Option Nat :=
  ((m.exports.find? (·.name == name)).map (·.line)).filter (0 < ·)

/-- The import that binds `name`. -/
def binding? (m : ModuleSyntax) (name : String) : Option Import :=
  m.imports.find? (·.binds name)

/-- The imports that are evaluated while the program runs. -/
def dynamicImports (m : ModuleSyntax) : List Import := m.imports.filter (·.kind == .dynamic)

end ModuleSyntax

end DeadCode
