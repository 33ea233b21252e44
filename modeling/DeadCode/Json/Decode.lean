import DeadCode.Json.Reader

/-!
# DeadCode.Json.Decode

Values of the library's own types from JSON values. A value of the wrong kind gives `none`. A record
is an object or an array of its fields in their order; a repeated field is refused, unlike a
repeated key of a map, where the last one counts. A choice between names is a string, or an object
with the name as its only field and `null` as its value.
-/

namespace DeadCode.Json

/-! ### Plain values -/

/-- The text of a string. -/
def string? : Json → Option String
  | .string s => some s
  | _ => none

/-- The truth value. -/
def bool? : Json → Option Bool
  | .bool b => some b
  | _ => none

/-- The largest number that a count can hold: one of 64 bits. -/
def maxCount : Nat := 0xFFFFFFFFFFFFFFFF

/-- A count: a literal of digits alone, at most `maxCount`. -/
def count? : Json → Option Nat
  | .number literal =>
    let digits := literal.toList
    if digits.all Char.isDigit && digitsValue digits ≤ maxCount then some (digitsValue digits)
    else none
  | _ => none

/-- The items of an array, each decoded. -/
def list? (item : Json → Option α) : Json → Option (List α)
  | .array items => items.mapM item
  | _ => none

/-- An array of strings. -/
def strings? : Json → Option (List String) := list? string?

/-- An object as a map, each value decoded. Every field must decode, also one whose key is repeated
later. -/
def map? (value : Json → Option β) : Json → Option (StringMap β)
  | .object fields => do
    let entries ← fields.mapM fun (k, v) => do return (k, ← value v)
    return .ofList entries
  | _ => none

/-- A value that may be `null`. -/
def nullable? (value : Json → Option α) : Json → Option (Option α)
  | .null => some none
  | v => (value v).map some

/-- The name that is chosen. -/
def choice? : Json → Option String
  | .string s => some s
  | .object [(name, .null)] => some name
  | _ => none

/-! ### Records -/

/-- How a record's fields stand in a value: the value of each field that is there. -/
abbrev Fields := List (String × Json)

/-- The fields of a record whose field names are `names`, in their order. An array may leave out
fields at its end only if `partly`; `others` tells whether an object may have other fields, which
are ignored. -/
def fields? (names : List String) (partly others : Bool) : Json → Option Fields
  | .object fields =>
    let known := fields.filter fun (name, _) => names.contains name
    if (known.map Prod.fst).Nodup && (others || known.length == fields.length) then some known
    else none
  | .array items =>
    if items.length ≤ names.length && (partly || items.length == names.length) then
      some (names.zip items)
    else none
  | _ => none

/-- A field that must be there. -/
def required? (fields : Fields) (name : String) (value : Json → Option α) : Option α :=
  (fields.lookup name).bind value

/-- A field that has a value when it is not there. -/
def default? (fields : Fields) (name : String) (otherwise : α) (value : Json → Option α) :
    Option α :=
  match fields.lookup name with
  | some v => value v
  | none => some otherwise

/-- A field that may be absent or `null`. -/
def optional? (fields : Fields) (name : String) (value : Json → Option α) : Option (Option α) :=
  default? fields name none (nullable? value)

end DeadCode.Json
