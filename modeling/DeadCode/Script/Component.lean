import DeadCode.Script.Scan
import DeadCode.Text.Search
import DeadCode.Text.Word

/-!
# DeadCode.Script.Component

Imports and exports of single-file components: those of their script blocks together.
-/

namespace DeadCode.Script

open Text

/-! ### Script blocks -/

/-- Whether `c` is the letter `letter` in upper or lower case. The long s is a lower-case form of
`s`. -/
def sameLetter (letter c : Char) : Bool :=
  c.toLower == letter || (letter == 's' && c == 'ſ')

/-- Pass over a word in upper or lower case. -/
def expectAnyCase (word : String) (cs : List Char) : Option (List Char) :=
  go word.toList cs
where
  /-- Letter by letter. -/
  go : List Char → List Char → Option (List Char)
    | [], cs => some cs
    | l :: ls, c :: cs => if sameLetter l c then go ls cs else none
    | _ :: _, [] => none

/-- The attributes of a tag up to its `>`, which may also stand inside quotes. -/
def takeAttributes (quote : Option Char) : List Char → Option (List Char × List Char)
  | [] => none
  | c :: cs =>
    let keep (quote : Option Char) : Option (List Char × List Char) :=
      (takeAttributes quote cs).map fun (text, rest) => (c :: text, rest)
    match quote with
    | some q => keep (if c = q then none else some q)
    | none =>
      if c = '>' then some ([], cs)
      else keep (if c = '"' || c = '\'' then some c else none)

/-- The end tag of a script block at the start of the text. -/
def endTag (cs : List Char) : Option (List Char) := do
  let cs ← expect "</" cs
  let cs ← expectAnyCase "script" cs
  expect ">" (cs.dropWhile isSpace)

/-- The body of a script block up to its end tag. -/
def takeBody : List Char → Option (List Char × List Char)
  | [] => none
  | c :: cs =>
    match endTag (c :: cs) with
    | some rest => some ([], rest)
    | none => (takeBody cs).map fun (body, rest) => (c :: body, rest)

/-- A script block of a component. -/
structure ScriptBlock where
  attributes : List Char
  body : List Char
  /-- The number of characters from the start of the block to its body. -/
  bodyStart : Nat

/-- A script block at the start of the text. -/
def scriptBlock : Recogniser ScriptBlock := fun _ cs => do
  let rest ← expect "<" cs
  let rest ← expectAnyCase "script" rest
  if rest.head?.any isWord then none
  else
    let (attributes, rest) ← takeAttributes none rest
    let (body, after) ← takeBody rest
    return (⟨attributes, body, cs.length - rest.length⟩, after)

/-! ### The language of a block -/

/-- The value of a `lang` attribute: letters behind an equals sign, possibly in quotes. -/
def langAttribute : Recogniser (List Char) := fun before cs =>
  if isBoundary before cs.head? then do
    let cs ← expect "lang" cs
    let cs ← expect "=" (cs.dropWhile isSpace)
    let cs := cs.dropWhile isSpace
    let cs := (expectIf (fun c => c == '"' || c == '\'') cs).getD cs
    takeName Char.isAlpha Char.isAlpha cs
  else none

/-- The dialect of a script block. -/
def ScriptBlock.dialect (block : ScriptBlock) : Dialect :=
  .ofLang ((findFirst? langAttribute block.attributes).map fun found =>
    .ofList (found.value.map Char.toLower))

/-! ### Components -/

/-- The script blocks of a component, each with the number of line feeds before its body. -/
def scriptBlocksFrom : Nat → Nat → List Char → List (Nat × ScriptBlock)
  | _, _, [] => []
  | skip + 1, lines, c :: cs => scriptBlocksFrom skip (lines + newlines [c]) cs
  | 0, lines, c :: cs =>
    match scriptBlock none (c :: cs) with
    | some (block, rest) =>
      (lines + newlines ((c :: cs).take block.bodyStart), block) ::
        scriptBlocksFrom (cs.length - rest.length) (lines + newlines [c]) cs
    | none => scriptBlocksFrom 0 (lines + newlines [c]) cs

/-- The imports and exports of a component. -/
def scanComponent (text : String) : ModuleSyntax :=
  (scriptBlocksFrom 0 0 text.toList).foldl
    (fun m (lines, block) => m.extend (scanChars block.dialect block.body) lines) .empty

end DeadCode.Script
