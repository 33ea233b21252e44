import DeadCode.Json.Decode
import DeadCode.Path.Basic

/-!
# DeadCode.SourceNode

The input of an analysis: files, and possibly symbols inside files, which are passed over. A node
may bring its imports and exports along (*hints*); they are then taken in place of a scan of its
text.
-/

namespace DeadCode

/-- What a node stands for. -/
inductive NodeKind where
  | file
  | function
  | classDef
  | method
  | variableDef
  | other
  deriving DecidableEq, Inhabited

namespace NodeKind

/-- Every kind. -/
def all : List NodeKind := [.file, .function, .classDef, .method, .variableDef, .other]

/-- The name of a kind. -/
def name : NodeKind → String
  | .file => "file"
  | .function => "function"
  | .classDef => "class"
  | .method => "method"
  | .variableDef => "variable"
  | .other => "other"

/-- The kind of that name. -/
def ofName? (s : String) : Option NodeKind := all.find? (·.name == s)

end NodeKind

/-- A file, or a symbol in a file. -/
structure SourceNode where
  path : String
  kind : NodeKind := .file
  content : Option String := none
  /-- Import specifiers as they are written. -/
  importsHint : Option (List String) := none
  /-- Names of exported symbols. -/
  exportsHint : Option (List String) := none
  deriving DecidableEq, Inhabited

namespace SourceNode

/-- A file with its content. -/
def file (path content : String) : SourceNode :=
  { path := Path.withSlashes path, content := some content }

/-- The node with imports and exports of its own. -/
def withHints (node : SourceNode) (imports exports : List String) : SourceNode :=
  { node with importsHint := some imports, exportsHint := some exports }

/-- Whether the node is a file. -/
def isFile (node : SourceNode) : Bool := node.kind = .file

/-- The content, where an empty one counts as none. -/
def text? (node : SourceNode) : Option String := node.content.filter (!·.isEmpty)

/-- Whether the node brings its imports or exports along. -/
def hasHints (node : SourceNode) : Bool := node.importsHint.isSome || node.exportsHint.isSome

/-! ### JSON -/

/-- The names of the fields, in their order. -/
def fieldNames : List String := ["path", "type", "content", "importsHint", "exportsHint"]

/-- The node as a JSON object. -/
def toJson (node : SourceNode) : Json := .object [
  ("path", .string node.path),
  ("type", .string node.kind.name),
  ("content", .ofOption .string node.content),
  ("importsHint", .ofOption .ofStrings node.importsHint),
  ("exportsHint", .ofOption .ofStrings node.exportsHint)]

/-- The node that a JSON value writes. -/
def ofJson? (json : Json) : Option SourceNode := do
  let fields ← json.fields? fieldNames true true
  return {
    path := ← Json.required? fields "path" Json.string?
    kind := ← Json.default? fields "type" .file fun v => v.choice?.bind NodeKind.ofName?
    content := ← Json.optional? fields "content" Json.string?
    importsHint := ← Json.optional? fields "importsHint" Json.strings?
    exportsHint := ← Json.optional? fields "exportsHint" Json.strings? }

/-- The node that a text writes. -/
def parse (text : String) : Option SourceNode :=
  (Json.parseShape (.record (fieldNames.map (·, .any))) text).bind ofJson?

end SourceNode

end DeadCode
