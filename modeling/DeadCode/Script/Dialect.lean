import DeadCode.Text.Basic

/-!
# DeadCode.Script.Dialect

The dialects of the JavaScript family: with or without types, with or without markup in expressions.
-/

namespace DeadCode.Script

/-- A dialect of the JavaScript family. -/
structure Dialect where
  /-- Type annotations and declarations. -/
  types : Bool
  /-- Markup elements as expressions. -/
  markup : Bool
  deriving DecidableEq

namespace Dialect

/-- Scripts without types; markup is always allowed in them. -/
def javaScript : Dialect := ⟨false, true⟩

/-- Scripts with types. -/
def typeScript : Dialect := ⟨true, false⟩

/-- Scripts with types and markup. -/
def typeScriptMarkup : Dialect := ⟨true, true⟩

/-- The dialect of a file by its extension, in upper or lower case. No character outside ASCII has
one of these letters as its lower-case form. -/
def ofExtension? (extension : String) : Option Dialect :=
  let lowered := String.ofList (extension.toList.map Char.toLower)
  if ["js", "mjs", "cjs", "jsx"].contains lowered then some javaScript
  else if ["ts", "mts", "cts"].contains lowered then some typeScript
  else if lowered == "tsx" then some typeScriptMarkup
  else none

/-- The dialect of a script block by its `lang` attribute. -/
def ofLang (lang : Option String) : Dialect :=
  if lang == some "ts" then typeScript
  else if lang == some "tsx" then typeScriptMarkup
  else javaScript

end Dialect

end DeadCode.Script
