import DeadCode.Ordered.StringSet
import DeadCode.Text.Search
import DeadCode.Text.Space
import DeadCode.Text.Upper
import DeadCode.Text.Word

/-!
# DeadCode.Framework.Tag

Components that a text uses as tags. The text is searched as it is, whatever language it is in; a
name that is found counts only once an import of the same file binds it.
-/

namespace DeadCode.Framework

open Text

/-! ### Names -/

/-- `my-button` as `MyButton`, `base_ui` as `BaseUi`: the parts between hyphens and underscores,
each with its first letter in upper case. -/
def pascalCase (name : String) : String :=
  .ofList ((splitWhere (fun c => c == '-' || c == '_') name.toList).flatMap fun
    | first :: rest => upper first ++ rest
    | [] => [])

/-- Whether the name of a component goes on with `c`. -/
def isComponentPart (c : Char) : Bool := c.isAlphanum || c == '_' || c == '$'

/-- The name of a component, which starts with an upper-case letter. -/
def componentName : List Char → Option (List Char × List Char) :=
  takeName Char.isUpper isComponentPart

/-! ### Recognisers -/

/-- The tag of a component: `<Foo`, and `<Ns.Member` as `Ns`. -/
def componentTag : Recogniser (List Char) := fun _ cs => do
  componentName (← expect "<" cs)

/-- A component that is created by a call: `createElement(Foo`. -/
def createdComponent : Recogniser (List Char) := fun _ cs => do
  let cs ← expect "createElement(" cs
  componentName (cs.dropWhile isSpace)

/-- A component that is passed on: `component={Foo}`. -/
def passedComponent : Recogniser (List Char) := fun before cs =>
  if isBoundary before cs.head? then do
    let cs ← expectOne ["component", "Component"] cs
    let cs ← expect "=" (cs.dropWhile isSpace)
    let cs ← expect "\x7b" (cs.dropWhile isSpace)
    let (name, cs) ← componentName (cs.dropWhile isSpace)
    let cs ← expect "\x7d" (cs.dropWhile isSpace)
    return (name, cs)
  else none

/-- Whether a part of a hyphenated tag goes on with `c`. -/
def isTagPart (c : Char) : Bool := c.isLower || c.isDigit

/-- The further parts of a hyphenated tag. -/
def tagParts : Nat → List Char → List Char × List Char
  | 0, cs => ([], cs)
  | n + 1, cs =>
    match cs with
    | '-' :: rest =>
      match takeName isTagPart isTagPart rest with
      | some (part, rest) =>
        let (parts, rest) := tagParts n rest
        ('-' :: part ++ parts, rest)
      | none => ([], cs)
    | _ => ([], cs)

/-- A tag in lower case with hyphens: `<my-button`. -/
def hyphenatedTag : Recogniser (List Char) := fun _ cs => do
  let cs ← expect "<" cs
  let (first, cs) ← takeName Char.isLower isTagPart cs
  match tagParts cs.length cs with
  | ([], _) => none
  | (parts, cs) => return (first ++ parts, cs)

/-! ### Texts -/

/-- The components that a text uses in its code. -/
def componentNames (text : String) : StringSet :=
  let cs := text.toList
  .ofList (([componentTag, createdComponent, passedComponent].flatMap (findValues · cs)).map
    String.ofList)

/-- The components that a template uses, also under hyphenated names. -/
def templateNames (text : String) : StringSet :=
  (componentNames text).insertMany
    ((findValues hyphenatedTag text.toList).map fun name => pascalCase (.ofList name))

end DeadCode.Framework
