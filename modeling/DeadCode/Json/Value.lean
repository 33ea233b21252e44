import DeadCode.Ordered.StringMap

/-!
# DeadCode.Json.Value

JSON values. A number is kept as its literal, an object as its fields in the order in which they
were written, repetitions included: what a repetition means is for the reader of the object to say.
-/

namespace DeadCode

/-- A JSON value. -/
inductive Json where
  | null
  | bool (value : Bool)
  | number (literal : String)
  | string (value : String)
  | array (items : List Json)
  | object (fields : List (String × Json))
  deriving Inhabited

namespace Json

/-- The number `n` as a value. -/
def ofNat (n : Nat) : Json := .number (toString n)

/-- A list of strings as an array. -/
def ofStrings (items : List String) : Json := .array (items.map .string)

/-- An optional value, `null` when there is none. -/
def ofOption (f : α → Json) : Option α → Json
  | some a => f a
  | none => .null

/-- An object whose fields are those of a map, in increasing order of their names. -/
def ofMap (f : β → Json) (m : StringMap β) : Json :=
  .object (m.toList.map fun (k, v) => (k, f v))

/-! ### Canonical values -/

mutual

/-- The value with the fields of every object in increasing order of their names, the last of
several fields of one name counting. -/
def canonical : Json → Json
  | .array items => .array (canonicalItems items)
  | .object fields => .object (canonicalFields fields).toList
  | v => v
termination_by structural v => v

/-- The items of an array in canonical form. -/
def canonicalItems : List Json → List Json
  | [] => []
  | v :: vs => canonical v :: canonicalItems vs
termination_by structural l => l

/-- The fields of an object in canonical form. -/
def canonicalFields : List (String × Json) → StringMap Json
  | [] => .empty
  | (name, v) :: fields => (canonicalFields fields).insertIfNew name (canonical v)
termination_by structural l => l

end

end Json

end DeadCode
