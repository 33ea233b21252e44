import DeadCode.Json.Value

/-!
# DeadCode.Json.Writer

Writing of JSON texts, on one line (`compact`) or with a line per item and an indentation of two
spaces (`pretty`). In strings only the quote, the backslash and the control characters below U+0020
are escaped.
-/

namespace DeadCode.Json

/-! ### Strings -/

/-- A lower-case hexadecimal digit. -/
def hexDigit (n : Nat) : Char :=
  if n < 10 then .ofNat ('0'.toNat + n) else .ofNat ('a'.toNat + n - 10)

/-- A character as it stands between the quotes. -/
def escape (c : Char) : List Char :=
  if c = '"' then ['\\', '"']
  else if c = '\\' then ['\\', '\\']
  else if c = '\n' then ['\\', 'n']
  else if c = '\r' then ['\\', 'r']
  else if c = '\t' then ['\\', 't']
  else if c = '\x08' then ['\\', 'b']
  else if c = '\x0c' then ['\\', 'f']
  else if c.toNat < 0x20 then
    ['\\', 'u', '0', '0', hexDigit (c.toNat / 16), hexDigit (c.toNat % 16)]
  else [c]

/-- A string with its quotes. -/
def quote (s : String) : List Char := '"' :: s.toList.flatMap escape ++ ['"']

/-- A value that is neither array nor object. -/
def writeScalar : Json → List Char
  | .null => ['n', 'u', 'l', 'l']
  | .bool true => ['t', 'r', 'u', 'e']
  | .bool false => ['f', 'a', 'l', 's', 'e']
  | .number literal => literal.toList
  | .string s => quote s
  | _ => []

/-! ### One line -/

mutual

/-- A value on one line. -/
def compactChars : Json → List Char
  | .array items => '[' :: compactItems items ++ [']']
  | .object fields => '\x7b' :: compactFields fields ++ ['\x7d']
  | v => writeScalar v

/-- Items with commas between them. -/
def compactItems : List Json → List Char
  | [] => []
  | [v] => compactChars v
  | v :: vs => compactChars v ++ ',' :: compactItems vs

/-- Fields with commas between them. -/
def compactFields : List (String × Json) → List Char
  | [] => []
  | [(name, v)] => quote name ++ ':' :: compactChars v
  | (name, v) :: fields => quote name ++ ':' :: compactChars v ++ ',' :: compactFields fields

end

/-- The text of a value on one line. -/
def compact (v : Json) : String := .ofList (compactChars v)

/-! ### A line per item -/

/-- The start of a line that is indented `depth` times. -/
def lineStart (depth : Nat) : List Char := '\n' :: .replicate (2 * depth) ' '

mutual

/-- A value whose inner lines are indented `depth + 1` times. -/
def prettyChars (depth : Nat) : Json → List Char
  | .array [] => ['[', ']']
  | .array (v :: vs) => '[' :: prettyItems (depth + 1) (v :: vs) ++ lineStart depth ++ [']']
  | .object [] => ['\x7b', '\x7d']
  | .object (f :: fs) =>
    '\x7b' :: prettyFields (depth + 1) (f :: fs) ++ lineStart depth ++ ['\x7d']
  | v => writeScalar v

/-- Items on lines of their own. -/
def prettyItems (depth : Nat) : List Json → List Char
  | [] => []
  | [v] => lineStart depth ++ prettyChars depth v
  | v :: vs => lineStart depth ++ prettyChars depth v ++ ',' :: prettyItems depth vs

/-- Fields on lines of their own. -/
def prettyFields (depth : Nat) : List (String × Json) → List Char
  | [] => []
  | [(name, v)] => lineStart depth ++ quote name ++ ':' :: ' ' :: prettyChars depth v
  | (name, v) :: fields =>
    lineStart depth ++ quote name ++ ':' :: ' ' :: prettyChars depth v ++
      ',' :: prettyFields depth fields

end

/-- The text of a value with a line per item. -/
def pretty (v : Json) : String := .ofList (prettyChars 0 v)

end DeadCode.Json
