import DeadCode.Graph.Explore
import Mathlib.Logic.Relation

/-!
# DeadCode.Proofs.Explore

What `explore` visits. The visited places are exactly those that a chain of successors reaches from
the work list without leaving the places that are known at the start (`mem_explore_iff`).

One side is an invariant of the work list: whatever holds of it and is handed on to successors
holds of every visited place. The other side is closedness: the work list is visited as far as it is
known, and so are the known successors of every visited place. Both follow the recursion of
`explore`, in which a visited place leaves the unseen ones and its successors join the work list.

The last section is about the order of the visits: the search is through with the front of the work
list, and all that it leads to, before it looks at the rest (`explore_append`).
-/

namespace DeadCode

open Relation

variable {α : Type} [DecidableEq α] {next : α → List α} {unseen work : List α}

/-- A successor that is known. -/
def StepWithin (next : α → List α) (known : List α) (a b : α) : Prop := b ∈ next a ∧ b ∈ known

/-! ### Every visited place is reached -/

/-- Whatever holds of the known part of the work list and is handed on to known successors holds of
every visited place. -/
theorem explore_induction {motive : α → Prop} (hwork : ∀ w ∈ work, w ∈ unseen → motive w)
    (hnext : ∀ a b, motive a → StepWithin next unseen a b → motive b) :
    ∀ x ∈ explore next unseen work, motive x := by
  fun_induction explore next unseen work with
  | case1 => simp
  | case2 unseen x work hx ih =>
    intro y hy
    have hxm : motive x := hwork x List.mem_cons_self hx
    rcases List.mem_cons.1 hy with rfl | hy
    · exact hxm
    · refine ih (fun w hw hu => ?_) (fun a b ha hab => ?_) y hy
      · have hu' := List.mem_of_mem_erase hu
        rcases List.mem_append.1 hw with hw | hw
        · exact hnext x w hxm ⟨hw, hu'⟩
        · exact hwork w (List.mem_cons_of_mem _ hw) hu'
      · exact hnext a b ha ⟨hab.1, List.mem_of_mem_erase hab.2⟩
  | case3 unseen x work hx ih =>
    exact ih (fun w hw => hwork w (List.mem_cons_of_mem _ hw)) hnext

/-! ### Every reached place is visited -/

theorem mem_explore_of_mem_work {w : α} (hw : w ∈ work) (hu : w ∈ unseen) :
    w ∈ explore next unseen work := by
  fun_induction explore next unseen work with
  | case1 => simp at hw
  | case2 unseen x work hx ih =>
    by_cases hwx : w = x
    · simp [hwx]
    · have hw' : w ∈ work := (List.mem_cons.1 hw).resolve_left hwx
      exact List.mem_cons_of_mem _
        (ih (List.mem_append_right _ hw') ((List.mem_erase_of_ne hwx).2 hu))
  | case3 unseen x work hx ih =>
    rcases List.mem_cons.1 hw with rfl | hw
    · exact absurd hu hx
    · exact ih hw hu

theorem mem_explore_of_step {a b : α} (ha : a ∈ explore next unseen work)
    (hab : StepWithin next unseen a b) : b ∈ explore next unseen work := by
  fun_induction explore next unseen work with
  | case1 => simp at ha
  | case2 unseen x work hx ih =>
    by_cases hbx : b = x
    · simp [hbx]
    · -- `b` is still unseen behind `x`, so it is met as a successor of `x` or of a later place
      have hb : b ∈ unseen.erase x := (List.mem_erase_of_ne hbx).2 hab.2
      refine List.mem_cons_of_mem _ ?_
      rcases List.mem_cons.1 ha with rfl | ha
      · exact mem_explore_of_mem_work (List.mem_append_left _ hab.1) hb
      · exact ih ha ⟨hab.1, hb⟩
  | case3 unseen x work hx ih => exact ih ha hab

/-! ### Exactness -/

/-- The visited places are those that a chain of known successors reaches from a known place of the
work list. -/
theorem mem_explore_iff {x : α} :
    x ∈ explore next unseen work ↔
      ∃ w ∈ work, w ∈ unseen ∧ ReflTransGen (StepWithin next unseen) w x := by
  constructor
  · refine explore_induction (motive := fun x => ∃ w ∈ work, w ∈ unseen ∧
      ReflTransGen (StepWithin next unseen) w x) ?_ ?_ x
    · exact fun w hw hu => ⟨w, hw, hu, .refl⟩
    · intro a b ha hab
      obtain ⟨w, hw, hu, hwa⟩ := ha
      exact ⟨w, hw, hu, hwa.tail hab⟩
  · intro h
    obtain ⟨w, hw, hu, hwx⟩ := h
    induction hwx with
    | refl => exact mem_explore_of_mem_work hw hu
    | tail _ hstep ih => exact mem_explore_of_step ih hstep

/-- When every successor is known, knowing the successors is no restriction. -/
theorem mem_explore_iff_of_closed (hclosed : ∀ a, ∀ b ∈ next a, b ∈ unseen) {x : α} :
    x ∈ explore next unseen work ↔
      ∃ w ∈ work, w ∈ unseen ∧ ReflTransGen (fun a b => b ∈ next a) w x := by
  have hstep : StepWithin next unseen = fun a b => b ∈ next a := by
    funext a b
    exact propext ⟨fun h => h.1, fun h => ⟨h, hclosed a b h⟩⟩
  rw [mem_explore_iff, hstep]

/-! ### The order of the visits -/

theorem explore_subset : explore next unseen work ⊆ unseen := by
  intro x hx
  obtain ⟨w, -, hw, hchain⟩ := mem_explore_iff.1 hx
  rcases hchain.cases_tail with rfl | ⟨_, -, hstep⟩
  · exact hw
  · exact hstep.2

/-- No place is visited twice. -/
theorem nodup_explore (h : unseen.Nodup) : (explore next unseen work).Nodup := by
  fun_induction explore next unseen work with
  | case1 => exact List.nodup_nil
  | case2 unseen x work hx ih =>
    refine List.nodup_cons.2 ⟨fun hmem => ?_, ih (h.erase x)⟩
    exact h.not_mem_erase (explore_subset hmem)
  | case3 unseen x work hx ih => exact ih h

/-- Whether a place is unseen matters only if the work list leads to it. -/
theorem explore_congr {other : List α} (hunseen : unseen.Nodup) (hother : other.Nodup)
    (h : ∀ w ∈ work, ∀ x, ReflTransGen (fun a b => b ∈ next a) w x → (x ∈ unseen ↔ x ∈ other)) :
    explore next unseen work = explore next other work := by
  fun_induction explore next unseen work generalizing other with
  | case1 => rw [explore]
  | case2 unseen x work hx ih =>
    have hx' : x ∈ other := (h x List.mem_cons_self x .refl).1 hx
    rw [explore, if_pos hx']
    congr 1
    refine ih (hunseen.erase x) (hother.erase x) fun w hw y hy => ?_
    rw [hunseen.mem_erase_iff, hother.mem_erase_iff]
    refine and_congr_right fun _ => ?_
    rcases List.mem_append.1 hw with hw | hw
    · exact h x List.mem_cons_self y (.head hw hy)
    · exact h w (List.mem_cons_of_mem _ hw) y hy
  | case3 unseen x work hx ih =>
    have hx' : x ∉ other := fun hmem => hx ((h x List.mem_cons_self x .refl).2 hmem)
    rw [explore, if_neg hx']
    exact ih hunseen hother fun w hw => h w (List.mem_cons_of_mem _ hw)

/-- What the front of the work list leads to is visited first, and counts as seen for the rest. -/
theorem explore_append (hunseen : unseen.Nodup) (rest : List α) :
    explore next unseen (work ++ rest) = explore next unseen work ++
      explore next (unseen.filter (· ∉ explore next unseen work)) rest := by
  fun_induction explore next unseen work with
  | case1 unseen =>
    have hall : unseen.filter (· ∉ ([] : List α)) = unseen := List.filter_eq_self.2 (by simp)
    rw [List.nil_append, List.nil_append, hall]
  | case2 unseen x work hx ih =>
    rw [List.cons_append, explore, if_pos hx, List.cons_append, ← List.append_assoc,
      ih (hunseen.erase x)]
    congr 2
    -- `x` has left the unseen places on one side and is filtered out on the other
    refine explore_congr ((hunseen.erase x).filter _) (hunseen.filter _) fun _ _ y _ => ?_
    simp only [List.mem_filter, hunseen.mem_erase_iff, List.mem_cons, decide_eq_true_eq, not_or]
    rw [and_assoc, and_left_comm]
  | case3 unseen x work hx ih =>
    rw [List.cons_append, explore, if_neg hx, ih hunseen]

end DeadCode
