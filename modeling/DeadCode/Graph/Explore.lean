/-!
# DeadCode.Graph.Explore

Depth-first exploration. `explore next unseen work` visits the work list from its front; a visited
place puts its successors at the front. A place is visited only while it is among the unseen ones,
so every place is visited once and places that are not known at the start are passed over.
-/

namespace DeadCode

variable {α : Type} [DecidableEq α]

/-- The places that are visited, in the order of their visits. -/
def explore (next : α → List α) (unseen : List α) : List α → List α
  | [] => []
  | x :: work =>
    if x ∈ unseen then x :: explore next (unseen.erase x) (next x ++ work)
    else explore next unseen work
termination_by work => (unseen.length, work.length)
decreasing_by
  · next h =>
    rw [List.length_erase_of_mem h]
    exact .left _ _ (Nat.sub_lt (List.length_pos_of_mem h) Nat.one_pos)
  · exact .right _ (Nat.lt_succ_self _)

end DeadCode
