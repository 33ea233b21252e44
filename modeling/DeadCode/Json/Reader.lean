import DeadCode.Json.Number
import DeadCode.Json.Value

/-!
# DeadCode.Json.Reader

Reading of JSON texts. The grammar is the strict one: blanks are space, tab, line feed and carriage
return, nothing but blanks may follow the value, and arrays and objects are nested at most 127 deep.

A reader that knows which fields it wants passes over the value of every other field (`passValue`).
There only the grammar is checked: the depth, the range of numbers and the pairing of surrogate
escapes are not. `Shape` says which fields are wanted.
-/

namespace DeadCode.Json

/-- A reader takes its value off the front of a text. -/
abbrev Reader (α : Type) := List Char → Option (α × List Char)

/-! ### Blanks and strings -/

/-- Whether `c` is blank space of JSON. -/
def isJsonBlank (c : Char) : Bool := c == ' ' || c == '\t' || c == '\n' || c == '\r'

/-- The text without leading blanks. -/
def skipBlanks (cs : List Char) : List Char := cs.dropWhile isJsonBlank

/-- The value of a hexadecimal digit. -/
def hexDigit? (c : Char) : Option Nat :=
  if '0' ≤ c && c ≤ '9' then some (c.toNat - '0'.toNat)
  else if 'a' ≤ c && c ≤ 'f' then some (c.toNat - 'a'.toNat + 10)
  else if 'A' ≤ c && c ≤ 'F' then some (c.toNat - 'A'.toNat + 10)
  else none

/-- The value of four hexadecimal digits. -/
def hexUnit? (a b c d : Char) : Option Nat := do
  return (((← hexDigit? a) * 16 + (← hexDigit? b)) * 16 + (← hexDigit? c)) * 16 + (← hexDigit? d)

/-- The character of an escape that is one letter. -/
def escaped? : Char → Option Char
  | '"' => some '"'
  | '\\' => some '\\'
  | '/' => some '/'
  | 'b' => some '\x08'
  | 'f' => some '\x0c'
  | 'n' => some '\n'
  | 'r' => some '\r'
  | 't' => some '\t'
  | _ => none

/-- Whether the unit is a leading surrogate. -/
def isLeading (n : Nat) : Bool := 0xD800 ≤ n && n < 0xDC00

/-- Whether the unit is a trailing surrogate. -/
def isTrailing (n : Nat) : Bool := 0xDC00 ≤ n && n < 0xE000

/-- The character of a pair of surrogates. -/
def ofSurrogates (leading trailing : Nat) : Char :=
  .ofNat (0x10000 + (leading - 0xD800) * 0x400 + (trailing - 0xDC00))

/-- The characters of a string up to its closing quote. A surrogate escape outside a pair is refused
when `checked`, and stands for the replacement character otherwise. -/
def readChars (checked : Bool) : Reader (List Char)
  | [] => none
  | '"' :: cs => some ([], cs)
  | '\\' :: 'u' :: a :: b :: c :: d :: cs =>
    match hexUnit? a b c d with
    | none => none
    | some n =>
      if isLeading n && checked then
        match cs with
        | '\\' :: 'u' :: a :: b :: c :: d :: cs =>
          match hexUnit? a b c d with
          | some m =>
            if isTrailing m then
              (readChars checked cs).map fun (s, rest) => (ofSurrogates n m :: s, rest)
            else none
          | none => none
        | _ => none
      else if isTrailing n && checked then none
      else
        let char := if isLeading n || isTrailing n then '\ufffd' else Char.ofNat n
        (readChars checked cs).map fun (s, rest) => (char :: s, rest)
  | '\\' :: e :: cs =>
    match escaped? e with
    | some char => (readChars checked cs).map fun (s, rest) => (char :: s, rest)
    | none => none
  | c :: cs =>
    if c.toNat < 0x20 || c == '\\' then none
    else (readChars checked cs).map fun (s, rest) => (c :: s, rest)

/-! ### Sequences -/

/-- Items divided by commas up to `close`, at least one of them; `index` counts them. -/
def readItems (close : Char) (item : Nat → Reader α) : Nat → Nat → Reader (List α)
  | 0, _, _ => none
  | fuel + 1, index, cs =>
    match item index cs with
    | none => none
    | some (a, rest) =>
      match skipBlanks rest with
      | ',' :: rest =>
        (readItems close item fuel (index + 1) rest).map fun (as, rest) => (a :: as, rest)
      | c :: rest => if c = close then some ([a], rest) else none
      | [] => none

/-- A possibly empty sequence of items up to `close`, whose opening bracket has been read. -/
def readSequence (close : Char) (item : Nat → Reader α) : Reader (List α) := fun cs =>
  match skipBlanks cs with
  | [] => none
  | c :: rest => if c = close then some ([], rest) else readItems close item cs.length 0 cs

/-- The name of a field with the colon behind it. A name is checked like any string. -/
def readName (checked : Bool) : Reader String := fun cs =>
  match skipBlanks cs with
  | '"' :: cs =>
    match readChars checked cs with
    | some (name, rest) =>
      match skipBlanks rest with
      | ':' :: rest => some (.ofList name, rest)
      | _ => none
    | none => none
  | _ => none

/-- A field whose value is read by `value`, which is told the field's name. -/
def readField (checked : Bool) (value : String → Reader α) : Reader (String × α) := fun cs => do
  let (name, rest) ← readName checked cs
  let (v, rest) ← value name rest
  return ((name, v), rest)

/-! ### Values -/

/-- A value that is neither array nor object. -/
def readScalar (checked : Bool) : Reader Json
  | 'n' :: 'u' :: 'l' :: 'l' :: cs => some (.null, cs)
  | 't' :: 'r' :: 'u' :: 'e' :: cs => some (.bool true, cs)
  | 'f' :: 'a' :: 'l' :: 's' :: 'e' :: cs => some (.bool false, cs)
  | '"' :: cs => (readChars checked cs).map fun (s, rest) => (.string (.ofList s), rest)
  | cs =>
    match readNumber cs with
    | some (n, rest) =>
      if checked && !n.inRange then none else some (.number (.ofList n.text), rest)
    | none => none

/-- A value in which arrays and objects are nested at most `depth` deep. -/
def readValue (checked : Bool) : Nat → Reader Json
  | 0, cs => readScalar checked (skipBlanks cs)
  | depth + 1, cs =>
    match skipBlanks cs with
    | '[' :: cs =>
      (readSequence ']' (fun _ => readValue checked depth) cs).map fun (items, rest) =>
        (.array items, rest)
    | '\x7b' :: cs =>
      (readSequence '\x7d' (fun _ => readField checked fun _ => readValue checked depth) cs).map
        fun (fields, rest) => (.object fields, rest)
    | cs => readScalar checked cs

/-- The deepest nesting of arrays and objects. -/
def maxDepth : Nat := 127

/-- Pass over a value of any depth. -/
def passValue : Reader Unit := fun cs =>
  (readValue false cs.length cs).map fun (_, rest) => ((), rest)

/-- The whole text as one value. -/
def complete (r : Reader α) (text : String) : Option α :=
  match r text.toList with
  | some (a, rest) => if (skipBlanks rest).isEmpty then some a else none
  | none => none

/-- The value that a text writes. -/
def parse (text : String) : Option Json := complete (readValue true maxDepth) text

/-! ### Records -/

/-- What is wanted of a value: all of it, or, of a record, certain fields. -/
inductive Shape where
  | any
  | record (fields : List (String × Shape))

/-- A value of which only the parts in `shape` are kept. A record is an object, or an array of its
fields in their order. -/
def readShape : Shape → Nat → Reader Json
  | .record fields, depth + 1, cs =>
    match skipBlanks cs with
    | '\x7b' :: cs =>
      let value (name : String) : Reader (Option Json) :=
        readWanted fields name depth
      (readSequence '\x7d' (fun _ => readField true value) cs).map fun (found, rest) =>
        (.object (found.filterMap fun (name, v) => v.map (name, ·)), rest)
    | '[' :: cs =>
      (readSequence ']' (fun i => readPlace fields i depth) cs).map fun (items, rest) =>
        (.array items, rest)
    | cs => readScalar true cs
  | _, depth, cs => readValue true depth cs
where
  /-- The value of the field `name` if it is wanted; the value of another field is passed over. -/
  readWanted : List (String × Shape) → String → Nat → Reader (Option Json)
    | [], _, _, cs => (passValue cs).map fun (_, rest) => (none, rest)
    | (wanted, shape) :: fields, name, depth, cs =>
      if wanted = name then (readShape shape depth cs).map fun (v, rest) => (some v, rest)
      else readWanted fields name depth cs
  /-- The value at place `i` of a record that is written as an array. -/
  readPlace : List (String × Shape) → Nat → Nat → Reader Json
    | (_, shape) :: _, 0, depth, cs => readShape shape depth cs
    | _ :: fields, i + 1, depth, cs => readPlace fields i depth cs
    | [], _, depth, cs => readValue true depth cs

/-- The wanted parts of the value that a text writes. -/
def parseShape (shape : Shape) (text : String) : Option Json :=
  complete (readShape shape maxDepth) text

end DeadCode.Json
