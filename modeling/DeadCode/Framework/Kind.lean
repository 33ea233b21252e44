import DeadCode.Text.Basic

/-!
# DeadCode.Framework.Kind

The frameworks whose conventions are known.
-/

namespace DeadCode

/-- A framework that loads files by convention. -/
inductive Framework where
  | next
  | react
  | vue
  | nuxt
  | svelte
  deriving DecidableEq, Inhabited

namespace Framework

/-- Every framework, in the order in which they are listed. -/
def all : List Framework := [.next, .react, .vue, .nuxt, .svelte]

/-- The name of a framework. -/
def name : Framework → String
  | .next => "next"
  | .react => "react"
  | .vue => "vue"
  | .nuxt => "nuxt"
  | .svelte => "svelte"

/-- The framework of that name, in upper or lower case; some have several names. -/
def ofName? (s : String) : Option Framework :=
  let lowered := String.ofList (s.toList.map Char.toLower)
  if ["next", "nextjs", "next.js"].contains lowered then some .next
  else if lowered == "react" then some .react
  else if lowered == "vue" then some .vue
  else if lowered == "nuxt" then some .nuxt
  else if ["svelte", "sveltekit"].contains lowered then some .svelte
  else none

/-- The framework that a package belongs to. -/
def ofPackage? (package : String) : Option Framework :=
  if ["react", "react-dom", "preact"].contains package then some .react
  else if package == "next" then some .next
  else if package == "vue" then some .vue
  else if ["nuxt", "nuxt3"].contains package then some .nuxt
  else if ["svelte", "@sveltejs/kit"].contains package then some .svelte
  else none

end Framework

/-- A file that a framework loads of its own, and why. -/
structure EntryPoint where
  path : String
  framework : Framework
  reason : String
  deriving DecidableEq

end DeadCode
