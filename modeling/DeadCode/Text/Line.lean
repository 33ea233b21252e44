import DeadCode.Text.Basic

/-!
# DeadCode.Text.Line

Line numbers. `newlines` counts the line feeds of a text; a place has the line number one plus the
line feeds before it. A `LineIndex` finds the same number by a binary search over the byte offsets
at which lines start.
-/

namespace DeadCode.Text

/-- The number of line feeds. -/
def newlines (cs : List Char) : Nat := cs.count '\n'

/-- The number of bytes that a text takes in UTF-8. -/
def byteLength : List Char → Nat
  | [] => 0
  | c :: cs => c.utf8Size + byteLength cs

/-- The byte offsets, from `offset` on, at which a line starts behind a line feed. -/
def lineStartsFrom (offset : Nat) : List Char → List Nat
  | [] => []
  | c :: cs =>
    let next := offset + c.utf8Size
    if c = '\n' then next :: lineStartsFrom next cs else lineStartsFrom next cs

/-- The byte offsets at which the lines of a text start, in increasing order. -/
structure LineIndex where
  starts : Array Nat

namespace LineIndex

/-- The line starts of a text. -/
def ofText (cs : List Char) : LineIndex := ⟨(0 :: lineStartsFrom 0 cs).toArray⟩

/-- Where a search for an offset among the line starts ends. -/
inductive Place where
  /-- The offset is the line start at this index. -/
  | hit (line : Nat)
  /-- The offset is no line start, and this is the index of the first one behind it. -/
  | miss (next : Nat)

/-- The number of line starts up to a place. -/
def Place.line : Place → Nat
  | hit line => line + 1
  | miss next => next

/-- The place of `offset`, when the line starts below `lo` lie before it and those from `hi` on lie
behind it. -/
def search (starts : Array Nat) (offset lo hi : Nat) : Place :=
  if lo < hi then
    let mid := (lo + hi) / 2
    let start := starts.getD mid 0
    if start = offset then .hit mid
    else if start < offset then search starts offset (mid + 1) hi
    else search starts offset lo mid
  else .miss lo
termination_by hi - lo

/-- The number of the line in which `offset` lies, counted from 1. -/
def lineAt (index : LineIndex) (offset : Nat) : Nat :=
  (search index.starts offset 0 index.starts.size).line

end LineIndex

end DeadCode.Text
