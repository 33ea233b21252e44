import DeadCode.Text.Basic

/-!
# DeadCode.Text.Search

Searching a text with a recogniser. A recogniser is asked at a place and answers for that place
alone; the search asks it from left to right and resumes behind what it recognised.
-/

namespace DeadCode.Text

/-- What a recogniser finds at a place, given the character before it and the text from there on: a
value and the text behind it. -/
abbrev Recogniser (α : Type) := Option Char → List Char → Option (α × List Char)

/-- Something found at a byte offset. -/
structure Found (α : Type) where
  offset : Nat
  value : α

/-- The finds in a text that starts at `offset`; the first `skip` characters are still covered by
the find before. -/
def findsFrom (recognise : Recogniser α) :
    Nat → Option Char → Nat → List Char → List (Found α)
  | _, _, _, [] => []
  | skip + 1, _, offset, c :: cs => findsFrom recognise skip (some c) (offset + c.utf8Size) cs
  | 0, before, offset, c :: cs =>
    match recognise before (c :: cs) with
    | some (value, rest) =>
      ⟨offset, value⟩ ::
        findsFrom recognise (cs.length - rest.length) (some c) (offset + c.utf8Size) cs
    | none => findsFrom recognise 0 (some c) (offset + c.utf8Size) cs

/-- Everything that is found in a text, from left to right and without overlap. -/
def finds (recognise : Recogniser α) (cs : List Char) : List (Found α) :=
  findsFrom recognise 0 none 0 cs

/-- The values that are found in a text. -/
def findValues (recognise : Recogniser α) (cs : List Char) : List α :=
  (finds recognise cs).map (·.value)

/-- The first value that is found. -/
def findFirst? (recognise : Recogniser α) (cs : List Char) : Option (Found α) :=
  (finds recognise cs).head?

/-- Whether anything is found. -/
def isFound (recognise : Recogniser α) (cs : List Char) : Bool :=
  (findFirst? recognise cs).isSome

/-- Whether a place is the start of a line. -/
def atLineStart (before : Option Char) : Bool := before.all (· == '\n')

/-! ### Steps of a recogniser -/

/-- Pass over a word. -/
def expect (word : String) (cs : List Char) : Option (List Char) := dropPrefix? word.toList cs

/-- Pass over the first of several words. -/
def expectOne (words : List String) (cs : List Char) : Option (List Char) :=
  words.findSome? (expect · cs)

/-- Pass over one character in `p`. -/
def expectIf (p : Char → Bool) : List Char → Option (List Char)
  | c :: cs => if p c then some cs else none
  | [] => none

/-- Pass over at least one character in `p`, as many as there are. -/
def expectMany (p : Char → Bool) (cs : List Char) : Option (List Char) :=
  (expectIf p cs).map (·.dropWhile p)

/-- The longest text of one character in `first` and any number in `next`. -/
def takeName (first next : Char → Bool) : List Char → Option (List Char × List Char)
  | c :: cs => if first c then some (c :: cs.takeWhile next, cs.dropWhile next) else none
  | [] => none

end DeadCode.Text
