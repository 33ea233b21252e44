import DeadCode.Graph.Explore
import DeadCode.Json.Value
import DeadCode.Path.Basic
import DeadCode.Usage.Basic

/-!
# DeadCode.Usage.Barrel

Barrels: index files in component directories whose job is to export what their neighbours define. A
barrel and the components that it exports are judged together. When nothing outside their directory
uses any of them, the whole group is dead, although its members import each other.
-/

namespace DeadCode

open Text

/-- A barrel with the components that it exports. -/
structure BarrelGroup where
  barrel : String
  /-- The files of the directory that the barrel imports, in increasing order. -/
  components : List String
  directory : String
  /-- The configured fragment under which the barrel falls. -/
  pattern : String
  /-- Whether a used file outside the directory imports the barrel or a component. -/
  usedOutside : Bool
  deriving DecidableEq

namespace BarrelGroup

/-! ### Recognising barrels -/

/-- The names of barrels. -/
def barrelNames : List String := ["index.ts", "index.tsx", "index.js", "index.jsx", "index.mjs"]

/-- The first pattern under which `path` falls, when it is a barrel. A pattern matches whole
segments from its start on. -/
def pattern? (patterns : List String) (path : String) : Option String :=
  if barrelNames.contains (Path.fileName path) then
    let dir := (Path.parent path).toList ++ ['/']
    let dir := if startsWith ['/'] dir then dir else '/' :: dir
    patterns.find? fun pattern => occursIn ('/' :: pattern.toList.dropWhile (· = '/')) dir
  else none

/-! ### Groups -/

/-- Whether an import comes from a used file outside the directory. -/
def comesFromOutside (dir : String) (used : StringSet) (e : ImportEdge) : Bool :=
  !Path.isWithin e.source dir && used.contains e.source

/-- The group of a barrel. -/
def ofBarrel (usage : Usage) (used : StringSet) (barrel pattern : String) : BarrelGroup :=
  let dir := Path.parent barrel
  let targets := (usage.edges.filter (·.source = barrel)).map (·.target)
  let components := StringSet.ofList <|
    targets.filter fun target => target ≠ barrel && Path.isWithin target dir
  { barrel
    components := components.toList
    directory := dir
    pattern
    usedOutside := usage.edges.any fun e =>
      comesFromOutside dir used e && (e.target = barrel || components.contains e.target) }

/-- The groups of the barrels among some files. -/
def groups (patterns : List String) (paths : List String) (usage : Usage) (used : StringSet) :
    List BarrelGroup :=
  paths.filterMap fun path => (pattern? patterns path).map (ofBarrel usage used path)

/-- Whether `path` is the barrel or one of its components. -/
def contains (g : BarrelGroup) (path : String) : Bool :=
  g.barrel = path || g.components.contains path

/-! ### Liveness inside a directory -/

/-- The files of the directory that used files outside it import, the barrel apart. -/
def kept (g : BarrelGroup) (usage : Usage) (used : StringSet) : List String :=
  ((usage.edges.filter (comesFromOutside g.directory used)).map (·.target)).filter fun target =>
    Path.isWithin target g.directory && target ≠ g.barrel

/-- The files of the directory that `path` imports. -/
def importsInside (g : BarrelGroup) (usage : Usage) (path : String) : List String :=
  ((usage.edges.filter (·.source = path)).map (·.target)).filter (Path.isWithin · g.directory)

/-- The files of the directory that something outside it keeps alive, directly or through files of
the directory. -/
def alive (g : BarrelGroup) (usage : Usage) (used : StringSet) : List String :=
  explore (g.importsInside usage) (StringSet.ofList (usage.edges.map (·.target))).toList
    (g.kept usage used)

/-- The members of the group that nothing outside the directory keeps alive, the barrel first. -/
def deadMembers (g : BarrelGroup) (usage : Usage) (used : StringSet) : List String :=
  if g.usedOutside then []
  else
    let alive := g.alive usage used
    (g.barrel :: g.components).filter fun path => !alive.contains path

/-! ### JSON -/

/-- The group as a JSON object. -/
def toJson (g : BarrelGroup) : Json := .object [
  ("barrelFile", .string g.barrel),
  ("exportedComponents", .ofStrings g.components),
  ("directory", .string g.directory),
  ("patternTag", .string g.pattern),
  ("hasExternalUsage", .bool g.usedOutside)]

end BarrelGroup

end DeadCode
