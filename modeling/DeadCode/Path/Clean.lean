import DeadCode.Path.Basic

/-!
# DeadCode.Path.Clean

Clean paths: no empty segment, no `.`, and every `..` cancelled against the ordinary segment before
it. A relative path whose `..` would climb above its start has no clean form.
-/

namespace DeadCode.Path

open Text

/-- One segment put on the stack of those that stand so far, the nearest first. At an absolute root
there is nothing to climb to, so `..` is dropped there. -/
def pushSegment (absolute : Bool) (stack : List (List Char)) (segment : List Char) :
    List (List Char) :=
  if segment.isEmpty || segment == ['.'] then stack
  else if segment == ['.', '.'] then
    match stack with
    | [] => if absolute then [] else [segment]
    | top :: rest => if top == ['.', '.'] then segment :: stack else rest
  else segment :: stack

/-- The segments that stand after all cancellation, from the start of the path. -/
def cleanSegments (absolute : Bool) (segments : List (List Char)) : List (List Char) :=
  (segments.foldl (pushSegment absolute) []).reverse

/-- The clean form of a path, with slashes for backslashes. There is none when `..` climbs above the
start of a relative path. -/
def clean? (path : String) : Option String :=
  let cs := path.toList
  let absolute := startsWith ['/'] cs
  let kept := cleanSegments absolute (splitOn '/' cs)
  if kept.head? == some ['.', '.'] then none
  else
    let joined := joinWith ['/'] kept
    some (withSlashes (.ofList (if absolute then '/' :: joined else joined)))

/-- `rel` seen from the directory `base`, in clean form. -/
def join? (base rel : String) : Option String :=
  if base.isEmpty then clean? rel else clean? (base ++ "/" ++ rel)

end DeadCode.Path
