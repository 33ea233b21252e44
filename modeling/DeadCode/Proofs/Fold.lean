/-!
# DeadCode.Proofs.Fold

Runs of one operation over a list. What a run leaves alone and what it adds follow from what a
single step leaves alone and adds. (That a run keeps an invariant of its steps is
`List.foldlRecOn`.)
-/

namespace DeadCode

variable {σ α β : Type} (step : σ → α → σ)

/-- What no step changes, a run does not change. -/
theorem foldl_frame (view : σ → β) (hstep : ∀ s a, view (step s a) = view s) (as : List α)
    (s : σ) : view (as.foldl step s) = view s := by
  induction as generalizing s with
  | nil => rfl
  | cons a as ih => rw [List.foldl_cons, ih, hstep]

/-- What holds after a run held before it, or some step has added it. -/
theorem foldl_iff {P : σ → Prop} {Q : α → Prop} (hstep : ∀ s a, P (step s a) ↔ P s ∨ Q a)
    (as : List α) (s : σ) : P (as.foldl step s) ↔ P s ∨ ∃ a ∈ as, Q a := by
  induction as generalizing s with
  | nil => simp
  | cons a as ih =>
    rw [List.foldl_cons, ih, hstep, or_assoc]
    simp only [List.mem_cons, exists_eq_or_imp]

end DeadCode
