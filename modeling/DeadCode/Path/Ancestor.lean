import DeadCode.Path.Basic

/-!
# DeadCode.Path.Ancestor

The directories above a path, nearest first. The last one is always `""`.
-/

namespace DeadCode.Path

open Text

theorem length_parent_lt {dir : String} (h : dir ≠ "") : (parent dir).length < dir.length := by
  rw [parent]
  split
  · next hcut => simpa [String.length] using length_of_cutLast hcut
  · simpa [String.length, Nat.pos_iff_ne_zero] using h

/-- A directory and every directory above it, nearest first. -/
def ancestors (dir : String) : List String :=
  if dir = "" then [dir] else dir :: ancestors (parent dir)
termination_by dir.length
decreasing_by exact length_parent_lt (by assumption)

/-- The directory `n` levels up; there is none above `""`. -/
def climb? : Nat → String → Option String
  | 0, dir => some dir
  | n + 1, dir => if dir.isEmpty then none else climb? n (parent dir)

end DeadCode.Path
