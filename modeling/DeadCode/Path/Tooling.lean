import DeadCode.Path.Basic

/-!
# DeadCode.Path.Tooling

Paths that belong to tools rather than to the program: build output, caches and vendored packages,
lock files, and configuration. Such files are never reported; that they are used by nobody says
nothing.
-/

namespace DeadCode.Path

open Text

/-- Directories that hold build output, caches, vendored packages or version control data. -/
def generatedDirectories : List String := [
  "dist", "build", "out", ".next", ".nuxt", ".output", ".svelte-kit", ".vercel", ".turbo",
  ".cache", ".parcel-cache", "coverage", "node_modules", "bower_components", "storybook-static",
  "target", "__pycache__", ".pytest_cache", ".mypy_cache", ".tox", ".venv", "venv",
  "site-packages", ".git", ".hg", ".svn"
]

/-- Endings of file names that mark generated files. -/
def generatedEndings : List String := [
  ".min.js", ".min.mjs", ".bundle.js", ".chunk.js", ".d.ts", ".d.mts", ".d.cts", ".map",
  "_pb2.py", "_pb2_grpc.py", ".pyc"
]

/-- Parts of file names that mark generated files. -/
def generatedMarks : List String := [".generated.", ".gen."]

/-- Names of lock files. -/
def lockFiles : List String := [
  "package-lock.json", "npm-shrinkwrap.json", "yarn.lock", "pnpm-lock.yaml", "bun.lockb",
  "poetry.lock", "Pipfile.lock", "uv.lock", "Cargo.lock"
]

/-- Names of configuration files. -/
def configFiles : List String := [
  "package.json", "tsconfig.json", "jsconfig.json", "pyproject.toml", "setup.py", "setup.cfg",
  "conftest.py", "noxfile.py", "fabfile.py", "gunicorn.conf.py", "karma.conf.js", "Gruntfile.js",
  "gulpfile.js", "babel.config.json", ".babelrc", ".babelrc.js", ".prettierrc.js",
  ".prettierrc.cjs", ".stylelintrc.js", ".lintstagedrc.js", "next-env.d.ts", "vite-env.d.ts"
]

/-- Beginnings of the names of configuration files. -/
def configBeginnings : List String := [".eslintrc", ".prettierrc", ".mocharc", ".commitlintrc"]

/-- Build output, a cache, a vendored package or a lock file. Empty segments do not count, neither
as a directory nor as the file name. -/
def isGenerated (path : String) : Bool :=
  let parts := (segments path).filter (!·.isEmpty)
  let name := (parts.getLast?.getD "").toList
  parts.dropLast.any generatedDirectories.contains ||
    lockFiles.contains (.ofList name) ||
    generatedEndings.any (fun e => endsWith e.toList name) ||
    generatedMarks.any (fun m => occursIn m.toList name)

/-- A configuration file of a tool: known by name, or by a `config` or `conf` between its dots. -/
def isConfigFile (path : String) : Bool :=
  let name := fileName path
  configFiles.contains name ||
    configBeginnings.any (fun b => startsWith b.toList name.toList) ||
    ((splitOn '.' name.toList).drop 1).any fun part =>
      part == "config".toList || part == "conf".toList

/-- A lock file. -/
def isLockFile (path : String) : Bool := lockFiles.contains (fileName path)

/-- A path that is never reported as orphaned. -/
def isTooling (path : String) : Bool := isGenerated path || isConfigFile path

/-- A package manifest of the project itself. -/
def isManifest (path : String) : Bool := fileName path == "package.json" && !isGenerated path

end DeadCode.Path
