import DeadCode.Text.Search
import DeadCode.Text.Space
import DeadCode.Text.Word

/-!
# DeadCode.Language.Marker

Marks in a text that the file is run as a program: it looks at its arguments, asks whether it is the
main module, or sets up a command line.
-/

namespace DeadCode.Language

open Text

/-- A recogniser from the steps that pass over what it recognises. -/
def marker (pass : List Char → Option (List Char)) : Recogniser Unit := fun _ cs =>
  (pass cs).map ((), ·)

/-- A recogniser that needs a word boundary before what it recognises. -/
def wordMarker (pass : List Char → Option (List Char)) : Recogniser Unit := fun before cs =>
  if isBoundary before cs.head? then (pass cs).map ((), ·) else none

/-- Pass over white space. -/
def spaces (cs : List Char) : List Char := cs.dropWhile isSpace

/-- A quote of either kind. -/
def isQuote (c : Char) : Bool := c == '\'' || c == '"'

/-! ### JavaScript -/

/-- The packages that set up command lines, in quotes, also as the beginning of a longer path. -/
def commandPackage (cs : List Char) : Option (List Char) := do
  let cs ← expectIf isQuote cs
  let cs ← expectOne ["commander", "yargs", "cac"] cs
  match cs with
  | '/' :: cs => expectIf isQuote (cs.dropWhile fun c => !isQuote c)
  | cs => expectIf isQuote cs

/-- The question whether a module is the main one: `require.main === module`. -/
def mainQuestion (cs : List Char) : Option (List Char) := do
  let cs ← expect "require.main" cs
  let cs ← expectOne ["===", "=="] (spaces cs)
  expect "module" (spaces cs)

/-- The call that reads the arguments of a program: `program.parse(`. -/
def programParse (cs : List Char) : Option (List Char) := do
  let cs ← expect "program" cs
  let cs ← expect "." (spaces cs)
  let cs ← expectOne ["parseAsync", "parse"] (spaces cs)
  expect "(" (spaces cs)

/-- A use of `yargs`. -/
def yargsUse (cs : List Char) : Option (List Char) := do
  expectOne ["(", "."] (spaces (← expect "yargs" cs))

/-- A call of `cac`. -/
def cacCall (cs : List Char) : Option (List Char) := do
  expect "(" (spaces (← expect "cac" cs))

/-- An import of a package that sets up command lines. -/
def commandImport (cs : List Char) : Option (List Char) := do
  commandPackage (← expectMany isSpace (← expect "from" cs))

/-- A `require` of a package that sets up command lines. -/
def commandRequire (cs : List Char) : Option (List Char) := do
  let cs ← commandPackage (spaces (← expect "require(" cs))
  expect ")" (spaces cs)

/-- The marks of a JavaScript program. -/
def scriptMarkers : List (Recogniser Unit) := [
  marker (expect "process.argv"),
  marker mainQuestion,
  marker (expect "import.meta.main"),
  wordMarker programParse,
  wordMarker yargsUse,
  wordMarker cacCall,
  marker commandImport,
  marker commandRequire]

/-- Whether a JavaScript file is run as a program: it names its interpreter or has a mark. -/
def isScriptProgram (text : String) : Bool :=
  startsWith "#!".toList text.toList || scriptMarkers.any (isFound · text.toList)

/-! ### Python -/

/-- The question whether a module is the main one: `if __name__ == "__main__"`. -/
def mainGuard (cs : List Char) : Option (List Char) := do
  let cs ← expect "__name__" (← expectMany isSpace (← expect "if" cs))
  let cs ← expect "==" (spaces cs)
  let cs ← expect "__main__" (← expectIf isQuote (spaces cs))
  expectIf isQuote cs

/-- The arguments of a program: `sys.argv`, as whole words. -/
def sysArguments : Recogniser Unit := fun before cs =>
  if isBoundary before cs.head? then
    match expect "sys.argv" cs with
    | some rest => if isBoundary (some 'v') rest.head? then some ((), rest) else none
    | none => none
  else none

/-- The marks of a Python program. -/
def pythonMarkers : List (Recogniser Unit) := [
  marker mainGuard,
  marker fun cs => do expect "(" (spaces (← expect "argparse.ArgumentParser" cs)),
  sysArguments,
  marker (expectOne ["@click.command", "@click.group"]),
  wordMarker fun cs => do expect "(" (spaces (← expect "typer.Typer" cs))]

/-- Whether a Python file is run as a program. -/
def isPythonProgram (text : String) : Bool := pythonMarkers.any (isFound · text.toList)

end DeadCode.Language
