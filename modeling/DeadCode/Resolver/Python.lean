import DeadCode.Path.Ancestor
import DeadCode.Resolver.Basic

/-!
# DeadCode.Resolver.Python

Imports of Python files. Leading dots say how far to climb from the directory of the file; a module
without dots is looked up in that directory and in every directory above it.
-/

namespace DeadCode.Resolver

open Text

/-- The file of the module or package at `path`. -/
def pythonModule? (r : Resolver) (path : String) : Option String :=
  r.known? (path ++ ".py") <|> r.known? (path ++ "/__init__.py")

/-- The files that an import means when it is looked up in `base`: the module, which is the package
of `base` itself when there is no name after the dots, and those of the imported names that are
submodules. -/
def pythonIn (r : Resolver) (name : List Char) (names : List String) (base : String) :
    List String :=
  let path? :=
    if name.isEmpty then some base
    else Path.join? base (.ofList (name.map fun c => if c = '.' then '/' else c))
  match path? with
  | none => []
  | some path =>
    let module? :=
      if name.isEmpty then r.known? ((Path.join? path "__init__.py").getD "")
      else r.pythonModule? path
    let submodules := (names.filter (· ≠ "*")).filterMap fun n =>
      (Path.join? path n).bind r.pythonModule?
    (module?.toList ++ submodules).eraseDups

/-- The files to which the import of `module`, and of `names` from it, leads in `source`. -/
def python (r : Resolver) (source module : String) (names : List String) : List String :=
  let dots := (module.toList.takeWhile (· = '.')).length
  let name := module.toList.drop dots
  let directory := Path.parent source
  let bases :=
    if dots = 0 then Path.ancestors directory
    else (Path.climb? (dots - 1) directory).toList
  ((bases.map (r.pythonIn name names)).find? (!·.isEmpty)).getD []

end DeadCode.Resolver
