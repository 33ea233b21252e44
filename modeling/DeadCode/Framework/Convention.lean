import DeadCode.Framework.Kind
import DeadCode.Framework.Tag
import DeadCode.Project.Basic
import DeadCode.Resolver.Script

/-!
# DeadCode.Framework.Convention

The conventions of the frameworks: by which files a framework is known to be there, which files it
loads without an import and why, and which files are used in a way that only its templates show.
-/

namespace DeadCode.Framework

open Text

/-! ### Detection -/

/-- Whether the name of a path starts with `beginning`. -/
def isNamedLike (beginning path : String) : Bool :=
  startsWith beginning.toList (Path.fileName path).toList

/-- Whether the files of a project show that the framework is there. -/
def isDetected (f : Framework) (p : Project) : Bool :=
  match f with
  | .next => p.paths.any fun path => isNamedLike "next.config." (p.relative path)
  | .react => p.paths.any (Path.hasExtension ["jsx", "tsx"])
  | .vue => p.paths.any Path.isVue
  | .nuxt => p.paths.any fun path => isNamedLike "nuxt.config." (p.relative path)
  | .svelte => p.paths.any fun path =>
      Path.isSvelte (p.relative path) || isNamedLike "svelte.config." (p.relative path)

/-! ### Files that are loaded without an import -/

/-- The stems of the files of a route in the `app` directory. -/
def routeStems : List String := [
  "page", "layout", "loading", "error", "not-found", "template", "default", "route",
  "global-error", "sitemap", "robots", "manifest", "icon", "apple-icon", "opengraph-image",
  "twitter-image"
]

/-- Why Next loads a script of a package. -/
def nextReason? (relative : String) : Option String :=
  let dirs := Path.directories relative
  let stem := Path.stem relative
  if dirs.contains "app" && routeStems.contains stem then some "app router file"
  else if dirs.contains "pages" then some "pages router file"
  else if dirs.contains "api" then some "API route"
  else if (dirs == [] || dirs == ["src"]) && ["middleware", "instrumentation"].contains stem then
    some "root hook"
  else none

/-- Why a React application loads a script of a package. -/
def reactReason? (relative : String) : Option String :=
  let isRoot :=
    match Path.segments relative with
    | [name] => Path.stem name == "index"
    | ["src", name] => ["main", "index", "App"].contains (Path.stem name)
    | _ => false
  if isRoot then some "application root" else none

/-- Whether a file is the script that starts an application. -/
def isMainScript (name : String) : Bool := Path.stem name == "main" && Path.isScript name

/-- Why a Vue application loads a script or component of a package. -/
def vueReason? (relative : String) : Option String :=
  let segments := Path.segments relative
  let route? :=
    if Path.isVue relative && segments.contains "pages" then some "file-based route" else none
  match segments with
  | ["src", name] =>
    if isMainScript name then some "application root"
    else if name == "App.vue" then some "root component"
    else if name == "router" then some "router definition"
    else route?
  | "src" :: "router" :: _ => some "router definition"
  | _ => route?

/-- The directories from which Nuxt loads files. -/
def nuxtDirectories : List String := [
  "pages", "layouts", "components", "composables", "middleware", "plugins", "utils", "stores",
  "server"
]

/-- A path as seen from the source directory of a Nuxt package, which may be `app`. -/
def nuxtRelative (relative : String) : String := (Path.below? "app" relative).getD relative

/-- Why Nuxt loads a script or component of a package. -/
def nuxtReason? (relative : String) : Option String :=
  match Path.segments (nuxtRelative relative) with
  | [name] =>
    if name == "app.vue" || name == "error.vue" then some "root component"
    else if isNamedLike "app.config." name then some "app config"
    else none
  | dir :: _ => if nuxtDirectories.contains dir then some "auto-loaded directory" else none
  | [] => none

/-- Why Svelte loads a file of a package. -/
def svelteReason? (relative : String) : Option String :=
  if ["+page", "+layout", "+server", "+error"].any (isNamedLike · relative) then
    some "SvelteKit route file"
  else if Path.isSvelte relative && (Path.directories relative).contains "routes" then
    some "route component"
  else
    match Path.segments relative with
    | ["src", name] =>
      if name == "app.html" then some "app template"
      else if isMainScript name then some "application root"
      else if Path.stem name == "service-worker" then some "service worker"
      else if isNamedLike "hooks." name && Path.isScript name then some "server/client hooks"
      else none
    | _ => none

/-- Whether a framework looks at a file at all. -/
def considers : Framework → String → Bool
  | .next, path | .react, path => Path.isScript path
  | .vue, path | .nuxt, path => Path.isScript path || Path.isVue path
  | .svelte, _ => true

/-- Why a framework loads a file that it looks at. -/
def reason? : Framework → String → Option String
  | .next => nextReason?
  | .react => reactReason?
  | .vue => vueReason?
  | .nuxt => nuxtReason?
  | .svelte => svelteReason?

/-- The files that a framework loads without an import. -/
def entryPoints (f : Framework) (p : Project) : List EntryPoint :=
  (p.paths.filter f.considers).filterMap fun path =>
    (f.reason? (p.packageRelative path)).map (EntryPoint.mk path f)

/-! ### Files that only templates show to be used -/

/-- The other files to which some imports of a file lead. -/
def targets (p : Project) (path : String) (imports : List Import) : List String :=
  (imports.filterMap fun i => p.resolver.script? path i.source).filter (· ≠ path)

/-- The files from which the names used in a file are imported. -/
def boundTargets (p : Project) (path : String) (names : StringSet) : List String :=
  match p.module? path with
  | none => []
  | some m => targets p path (names.toList.filterMap m.binding?)

/-- The files that a file imports while it runs. -/
def dynamicTargets (p : Project) (path : String) : List String :=
  match p.module? path with
  | none => []
  | some m => targets p path m.dynamicImports

/-- The names that a file uses as components, for a framework that finds them there. -/
def namesIn (f : Framework) (path text : String) : StringSet :=
  match f with
  | .next | .react => componentNames text
  | .vue | .nuxt => if Path.isVue path then templateNames text else .empty
  | .svelte => if Path.isSvelte path then componentNames text else .empty

/-- Whether the uses in a file are looked at. -/
def readsUses : Framework → String → Bool
  | .next, path | .react, path => Path.isScript path
  | .vue, path | .nuxt, path => Path.isScript path || Path.isVue path
  | .svelte, path => Path.isScript path || Path.isSvelte path

/-- The files that a file uses as components, or imports while it runs. -/
def usedBy (f : Framework) (p : Project) (path : String) : List String :=
  (match p.content? path with
    | some text => boundTargets p path (f.namesIn path text)
    | none => []) ++ dynamicTargets p path

/-! ### Components that Nuxt imports of its own -/

/-- The names under which Nuxt knows a file below the `components` directory, given by its path
there: the name with those of its directories put before it, unless it has them already, and the
bare name. -/
def nuxtNames (below : String) : List String :=
  let scope := String.join ((Path.directories below).map pascalCase)
  let name := pascalCase (Path.stem below)
  let full :=
    if name = "Index" then scope
    else if startsWith scope.toList name.toList then name
    else scope ++ name
  if full.isEmpty then [name] else [full, name]

/-- The components that Nuxt imports of its own, by name. Of several files of one name the first one
counts. -/
def nuxtComponents (p : Project) : StringMap String :=
  (p.paths.filter fun path => Path.isComponent path || Path.isScript path).foldl
    (fun found path =>
      match Path.below? "components" (nuxtRelative (p.packageRelative path)) with
      | none => found
      | some below => (nuxtNames below).foldl (fun found name => found.insertIfNew name path) found)
    .empty

/-- The components that a template uses without an import; `Lazy` before a name says that they are
loaded late. -/
def nuxtUsedBy (p : Project) (components : StringMap String) (path : String) : List String :=
  match p.content? path with
  | none => []
  | some text =>
    ((templateNames text).toList.filterMap fun name =>
      components.find? (.ofList ((dropPrefix? "Lazy".toList name.toList).getD name.toList))).filter
        (· ≠ path)

/-! ### Usage -/

/-- The files that are used as far as the framework knows. -/
def usedFiles (f : Framework) (p : Project) : StringSet :=
  let used := (p.paths.filter f.readsUses).flatMap (f.usedBy p)
  let found := if f = .nuxt then
      (p.paths.filter Path.isVue).flatMap (nuxtUsedBy p (nuxtComponents p))
    else []
  .ofList (used ++ found)

/-! ### Selection -/

/-- The frameworks whose conventions hold: those that a manifest names or the files show, Next
before React and Nuxt before Vue. -/
def select (hinted : List Framework) (p : Project) : List Framework :=
  let active (f : Framework) : Bool := hinted.contains f || f.isDetected p
  let firstOf (fs : List Framework) : List Framework := (fs.find? active).toList
  firstOf [.next, .react] ++ firstOf [.nuxt, .vue] ++ firstOf [.svelte]

end DeadCode.Framework
