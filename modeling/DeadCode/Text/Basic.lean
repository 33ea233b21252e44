/-!
# DeadCode.Text.Basic

Cutting, searching and joining of character lists. Every other module that looks into a text does
so through these functions, on `String.toList`, so that a statement about a path, a specifier or a
source text is a statement about a list of characters.
-/

namespace DeadCode.Text

/-! ### Prefixes and suffixes -/

/-- What follows `p` in a text that starts with `p`. -/
def dropPrefix? : List Char → List Char → Option (List Char)
  | [], cs => some cs
  | _ :: _, [] => none
  | p :: ps, c :: cs => if p = c then dropPrefix? ps cs else none

/-- Whether the text starts with `p`. -/
def startsWith (p cs : List Char) : Bool := (dropPrefix? p cs).isSome

/-- Whether the text ends with `p`. -/
def endsWith (p cs : List Char) : Bool := startsWith p.reverse cs.reverse

/-- The text without its longest suffix of characters in `p`. -/
def dropEndWhile (p : Char → Bool) (cs : List Char) : List Char :=
  (cs.reverse.dropWhile p).reverse

/-- The text without its longest prefix and suffix of characters in `p`. -/
def trimWhile (p : Char → Bool) (cs : List Char) : List Char :=
  dropEndWhile p (cs.dropWhile p)

/-- The text after every leading copy of `p` is dropped. An empty `p` drops nothing. -/
def dropRepeated (p : List Char) : Nat → List Char → List Char
  | 0, cs => cs
  | n + 1, cs =>
    match dropPrefix? p cs with
    | some rest => dropRepeated p n rest
    | none => cs

/-! ### Cutting at a character -/

/-- The text before and after the first `c`. -/
def cutFirst (c : Char) : List Char → Option (List Char × List Char)
  | [] => none
  | x :: xs =>
    if x = c then some ([], xs)
    else (cutFirst c xs).map fun (before, after) => (x :: before, after)

/-- The text before and after the last `c`. -/
def cutLast (c : Char) : List Char → Option (List Char × List Char)
  | [] => none
  | x :: xs =>
    match cutLast c xs with
    | some (before, after) => some (x :: before, after)
    | none => if x = c then some ([], xs) else none

theorem length_of_cutLast {c : Char} {cs before after : List Char}
    (h : cutLast c cs = some (before, after)) : before.length < cs.length := by
  induction cs generalizing before with
  | nil => simp [cutLast] at h
  | cons x xs ih =>
    rw [cutLast] at h
    split at h
    · next hx =>
      obtain ⟨rfl, rfl⟩ := Prod.mk.inj (Option.some.inj h)
      exact Nat.succ_lt_succ (ih hx)
    · split at h
      · obtain ⟨rfl, rfl⟩ := Prod.mk.inj (Option.some.inj h)
        exact Nat.succ_pos _
      · simp at h

/-- The pieces between the characters in `sep`; a text without any is one piece. -/
def splitWhere (sep : Char → Bool) : List Char → List (List Char)
  | [] => [[]]
  | c :: cs =>
    if sep c then [] :: splitWhere sep cs
    else
      match splitWhere sep cs with
      | piece :: pieces => (c :: piece) :: pieces
      | [] => [[c]]

/-- The pieces between the copies of `sep`. -/
def splitOn (sep : Char) (cs : List Char) : List (List Char) := splitWhere (· == sep) cs

/-- The pieces put together again with `sep` between neighbours. -/
def joinWith (sep : List Char) : List (List Char) → List Char
  | [] => []
  | [piece] => piece
  | piece :: pieces => piece ++ sep ++ joinWith sep pieces

/-! ### Searching -/

/-- Whether `needle` stands somewhere in the text. -/
def occursIn (needle : List Char) : List Char → Bool
  | [] => needle.isEmpty
  | c :: cs => startsWith needle (c :: cs) || occursIn needle cs

/-- Copies of a non-empty `needle` from left to right, each search resuming behind the copy before;
`skip` characters are still covered by the last copy. -/
def copiesFrom (needle : List Char) : Nat → List Char → Nat
  | _, [] => 0
  | skip + 1, _ :: cs => copiesFrom needle skip cs
  | 0, c :: cs =>
    if startsWith needle (c :: cs) then copiesFrom needle (needle.length - 1) cs + 1
    else copiesFrom needle 0 cs

/-- How often `needle` stands in the text without overlap. The empty text stands before every
character and at the end. -/
def copies (needle cs : List Char) : Nat :=
  if needle.isEmpty then cs.length + 1 else copiesFrom needle 0 cs

/-! ### Lines -/

/-- The lines of a text: each ends at a line feed, a carriage return before the line feed belongs to
the line end, and the empty text has none. -/
def lines : List Char → List (List Char)
  | [] => []
  | '\n' :: cs => [] :: lines cs
  | '\r' :: '\n' :: cs => [] :: lines cs
  | c :: cs =>
    match lines cs with
    | line :: rest => (c :: line) :: rest
    | [] => [[c]]

end DeadCode.Text
