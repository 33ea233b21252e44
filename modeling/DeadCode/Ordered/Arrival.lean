/-!
# DeadCode.Ordered.Arrival

Lists of distinct values in the order in which the values first arrived.
-/

namespace DeadCode.Arrival

variable {α : Type} [DecidableEq α]

/-- The list with `x` at its end, unless `x` is there already. -/
def add (l : List α) (x : α) : List α := if x ∈ l then l else l ++ [x]

/-- The list with every value of another one added in turn. -/
def addAll (l xs : List α) : List α := xs.foldl add l

@[simp]
theorem mem_add {l : List α} {x y : α} : y ∈ add l x ↔ y ∈ l ∨ y = x := by
  rw [add]
  split
  · next h => exact ⟨.inl, fun h' => h'.elim id (· ▸ h)⟩
  · simp

@[simp]
theorem mem_addAll {l xs : List α} {y : α} : y ∈ addAll l xs ↔ y ∈ l ∨ y ∈ xs := by
  induction xs generalizing l with
  | nil => simp [addAll]
  | cons x xs ih =>
    have h : addAll l (x :: xs) = addAll (add l x) xs := rfl
    rw [h, ih, mem_add, List.mem_cons, or_assoc]

theorem nodup_add {l : List α} (h : l.Nodup) (x : α) : (add l x).Nodup := by
  rw [add]
  split
  · exact h
  · next hx =>
    refine List.nodup_append.2 ⟨h, by simp, fun a ha b hb => ?_⟩
    rw [List.mem_singleton.1 hb]
    exact fun e => hx (e ▸ ha)

theorem nodup_addAll {l : List α} (h : l.Nodup) (xs : List α) : (addAll l xs).Nodup := by
  induction xs generalizing l with
  | nil => exact h
  | cons x xs ih => exact ih (nodup_add h x)

end DeadCode.Arrival
