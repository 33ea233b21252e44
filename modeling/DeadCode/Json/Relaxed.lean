import DeadCode.Text.Space

/-!
# DeadCode.Json.Relaxed

JSON as people write it: with comments, and with a comma behind the last item. `strip` gives the
strict text. Strings are left alone.
-/

namespace DeadCode.Json

open Text

/-- Where in a relaxed text reading stands. -/
inductive RelaxedMode where
  | plain
  | string
  | lineComment
  /-- In a comment between stars; `starred` tells that the character before was a star. -/
  | blockComment (starred : Bool)

/-- Whether a comma before this text closes a list: only white space stands before the bracket. -/
def beforeClose (cs : List Char) : Bool :=
  (cs.dropWhile isSpace).head?.any fun c => c == '\x7d' || c == ']'

/-- A relaxed text without comments and without commas before closing brackets. A comment up to the
end of its line leaves the line feed. -/
def stripFrom : RelaxedMode → List Char → List Char
  | _, [] => []
  | .string, '\\' :: c :: cs => '\\' :: c :: stripFrom .string cs
  | .string, c :: cs => c :: stripFrom (if c = '"' then .plain else .string) cs
  | .lineComment, c :: cs =>
    if c = '\n' then c :: stripFrom .plain cs else stripFrom .lineComment cs
  | .blockComment starred, c :: cs =>
    if starred && c = '/' then stripFrom .plain cs else stripFrom (.blockComment (c = '*')) cs
  | .plain, '/' :: '/' :: cs => stripFrom .lineComment cs
  | .plain, '/' :: '*' :: cs => stripFrom (.blockComment false) cs
  | .plain, c :: cs =>
    if c = '"' then c :: stripFrom .string cs
    else if c = ',' && beforeClose cs then stripFrom .plain cs
    else c :: stripFrom .plain cs

theorem stripFrom_plain_cons {c : Char} (hc : c ≠ '/') (cs : List Char) :
    stripFrom .plain (c :: cs) =
      if c = '"' then c :: stripFrom .string cs
      else if c = ',' && beforeClose cs then stripFrom .plain cs
      else c :: stripFrom .plain cs := by
  rw [stripFrom] <;> simp [hc]

theorem stripFrom_string_cons {c : Char} (hc : c ≠ '\\') (cs : List Char) :
    stripFrom .string (c :: cs) = c :: stripFrom (if c = '"' then .plain else .string) cs := by
  rw [stripFrom]
  simp [hc]

theorem stripFrom_lineComment_cons (c : Char) (cs : List Char) :
    stripFrom .lineComment (c :: cs) =
      if c = '\n' then c :: stripFrom .plain cs else stripFrom .lineComment cs := by
  rw [stripFrom]

theorem stripFrom_blockComment_cons (starred : Bool) (c : Char) (cs : List Char) :
    stripFrom (.blockComment starred) (c :: cs) =
      if starred && c = '/' then stripFrom .plain cs
      else stripFrom (.blockComment (c = '*')) cs := by
  rw [stripFrom]

/-- The strict text of a relaxed one. -/
def strip (text : String) : String := .ofList (stripFrom .plain text.toList)

end DeadCode.Json
