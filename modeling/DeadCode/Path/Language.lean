import DeadCode.Path.Basic

/-!
# DeadCode.Path.Language

Which source language a path belongs to, judged by its extension, and which files a test runner
loads by their name.
-/

namespace DeadCode.Path

open Text

/-- The extensions of JavaScript and TypeScript sources, in the order in which they are probed. -/
def scriptExtensions : List String := ["ts", "tsx", "js", "jsx", "mjs", "cjs", "mts", "cts"]

/-- The extensions of TypeScript sources. -/
def typedExtensions : List String := ["ts", "tsx", "mts", "cts"]

/-- Whether the path has one of the extensions. -/
def hasExtension (extensions : List String) (path : String) : Bool :=
  (extension? path).any extensions.contains

/-- A JavaScript or TypeScript source. -/
def isScript (path : String) : Bool := hasExtension scriptExtensions path

/-- A single-file component. -/
def isComponent (path : String) : Bool := hasExtension ["vue", "svelte"] path

/-- A Python module or stub. -/
def isPython (path : String) : Bool := hasExtension ["py", "pyi"] path

/-- A TypeScript source. -/
def isTyped (path : String) : Bool := hasExtension typedExtensions path

/-- A Vue component. -/
def isVue (path : String) : Bool := extension? path == some "vue"

/-- A Svelte component. -/
def isSvelte (path : String) : Bool := extension? path == some "svelte"

/-- A file in which imports and exports are looked for. -/
def isSource (path : String) : Bool := isScript path || isComponent path || isPython path

/-- A test or story of the JavaScript family, which its runner loads without an import. -/
def isTestOrStory (path : String) : Bool :=
  hasSegment path "__tests__" ||
    [".test.", ".spec.", ".stories.", ".story."].any fun mark =>
      occursIn mark.toList (fileName path).toList

/-- A Python test module, which its runner collects by name. -/
def isTestModule (path : String) : Bool :=
  let name := (fileName path).toList
  (startsWith "test_".toList name && endsWith ".py".toList name) || endsWith "_test.py".toList name

end DeadCode.Path
