/-!
# DeadCode.Ordered.StringSet

Finite sets of strings, listed in increasing order. The order is by code points, which is also the
order of the UTF-8 bytes. The listing carries its own proof of order, so two sets with the same
members are equal (`StringSet.ext_mem`), and whatever is printed from a set is sorted and free of
repetitions.
-/

namespace DeadCode

/-- A set of strings as its strictly increasing listing. -/
structure StringSet where
  toList : List String
  sorted : toList.Pairwise (· < ·)
  deriving DecidableEq

namespace StringSet

/-! ### Insertion into an increasing list -/

/-- Put `x` at its place; a string that is there already changes nothing. -/
def insertInto (x : String) : List String → List String
  | [] => [x]
  | y :: ys =>
    if x < y then x :: y :: ys
    else if x = y then y :: ys
    else y :: insertInto x ys

theorem mem_insertInto {x y : String} {l : List String} :
    y ∈ insertInto x l ↔ y = x ∨ y ∈ l := by
  induction l with
  | nil => simp [insertInto]
  | cons z zs ih =>
    rw [insertInto]
    split
    · simp
    · split
      · next h => subst h; simp
      · simp only [List.mem_cons, ih]; grind

/-- Increasing lists with the same members are equal. -/
theorem eq_of_sorted {l m : List String} (hl : l.Pairwise (· < ·)) (hm : m.Pairwise (· < ·))
    (h : ∀ x, x ∈ l ↔ x ∈ m) : l = m := by
  induction l generalizing m with
  | nil =>
    cases m with
    | nil => rfl
    | cons y ys => exact absurd ((h y).2 List.mem_cons_self) List.not_mem_nil
  | cons x xs ih =>
    cases m with
    | nil => exact absurd ((h x).1 List.mem_cons_self) List.not_mem_nil
    | cons y ys =>
      obtain ⟨hx, hxs⟩ := List.pairwise_cons.1 hl
      obtain ⟨hy, hys⟩ := List.pairwise_cons.1 hm
      have hxy : x = y := by
        rcases List.mem_cons.1 ((h x).1 List.mem_cons_self) with e | hmem
        · exact e
        · rcases List.mem_cons.1 ((h y).2 List.mem_cons_self) with e | hmem'
          · exact e.symm
          · exact absurd (hx y hmem') (String.lt_asymm (hy x hmem))
      subst hxy
      congr 1
      refine ih hxs hys fun z => ⟨fun hz => ?_, fun hz => ?_⟩
      · rcases List.mem_cons.1 ((h z).1 (List.mem_cons_of_mem _ hz)) with rfl | hz'
        · exact absurd (hx z hz) (String.lt_irrefl z)
        · exact hz'
      · rcases List.mem_cons.1 ((h z).2 (List.mem_cons_of_mem _ hz)) with rfl | hz'
        · exact absurd (hy z hz) (String.lt_irrefl z)
        · exact hz'

theorem sorted_nil : ([] : List String).Pairwise (· < ·) := .nil

theorem sorted_insertInto {x : String} {l : List String} (h : l.Pairwise (· < ·)) :
    (insertInto x l).Pairwise (· < ·) := by
  induction l with
  | nil => simp [insertInto]
  | cons y ys ih =>
    obtain ⟨hy, hys⟩ := List.pairwise_cons.1 h
    rw [insertInto]
    split
    · next hlt =>
      refine List.pairwise_cons.2 ⟨fun z hz => ?_, h⟩
      rcases List.mem_cons.1 hz with rfl | hz
      · exact hlt
      · exact String.lt_trans hlt (hy z hz)
    · split
      · exact h
      · next hlt hne =>
        refine List.pairwise_cons.2 ⟨fun z hz => ?_, ih hys⟩
        rcases mem_insertInto.1 hz with rfl | hz
        · rcases Std.Trichotomous.rel_or_eq_or_rel_swap (r := (· < · : String → String → Prop))
            (a := z) (b := y) with h | h | h
          · exact absurd h hlt
          · exact absurd h hne
          · exact h
        · exact hy z hz

/-! ### The sets -/

/-- The set without members. -/
def empty : StringSet := ⟨[], sorted_nil⟩

instance : EmptyCollection StringSet := ⟨empty⟩

instance : Inhabited StringSet := ⟨empty⟩

instance : Membership String StringSet := ⟨fun s x => x ∈ s.toList⟩

instance (x : String) (s : StringSet) : Decidable (x ∈ s) :=
  inferInstanceAs (Decidable (x ∈ s.toList))

theorem mem_iff {x : String} {s : StringSet} : x ∈ s ↔ x ∈ s.toList := Iff.rfl

/-- Whether `x` is a member. -/
def contains (s : StringSet) (x : String) : Bool := decide (x ∈ s)

/-- The set with `x` added. -/
def insert (s : StringSet) (x : String) : StringSet :=
  ⟨insertInto x s.toList, sorted_insertInto s.sorted⟩

/-- The set with every string of a list added. -/
def insertMany (s : StringSet) (xs : List String) : StringSet := xs.foldl insert s

/-- The members of a list. -/
def ofList (xs : List String) : StringSet := empty.insertMany xs

/-- The members of either set. -/
def union (s t : StringSet) : StringSet := s.insertMany t.toList

instance : Union StringSet := ⟨union⟩

/-- The set without `x`. -/
def erase (s : StringSet) (x : String) : StringSet :=
  ⟨s.toList.filter (· ≠ x), s.sorted.filter _⟩

/-- The members in `p`. -/
def filter (p : String → Bool) (s : StringSet) : StringSet :=
  ⟨s.toList.filter p, s.sorted.filter _⟩

/-- The number of members. -/
def size (s : StringSet) : Nat := s.toList.length

/-- Whether there is no member. -/
def isEmpty (s : StringSet) : Bool := s.toList.isEmpty

@[simp]
theorem not_mem_empty (x : String) : ¬ x ∈ empty := by simp [mem_iff, empty]

@[simp]
theorem mem_insert {s : StringSet} {x y : String} : y ∈ s.insert x ↔ y = x ∨ y ∈ s :=
  mem_insertInto

@[simp]
theorem mem_insertMany {s : StringSet} {xs : List String} {y : String} :
    y ∈ s.insertMany xs ↔ y ∈ s ∨ y ∈ xs := by
  induction xs generalizing s with
  | nil => simp [insertMany]
  | cons x xs ih =>
    have h : s.insertMany (x :: xs) = (s.insert x).insertMany xs := rfl
    rw [h, ih]
    simp only [mem_insert, List.mem_cons]
    grind

@[simp]
theorem mem_ofList {xs : List String} {y : String} : y ∈ ofList xs ↔ y ∈ xs := by
  simp [ofList]

@[simp]
theorem mem_union {s t : StringSet} {y : String} : y ∈ s ∪ t ↔ y ∈ s ∨ y ∈ t :=
  mem_insertMany

@[simp]
theorem mem_erase {s : StringSet} {x y : String} : y ∈ s.erase x ↔ y ≠ x ∧ y ∈ s := by
  simp [mem_iff, erase, and_comm]

@[simp]
theorem mem_filter {p : String → Bool} {s : StringSet} {x : String} :
    x ∈ s.filter p ↔ x ∈ s ∧ p x = true := by
  simp [mem_iff, filter]

/-- A set is its members. -/
theorem ext_mem {s t : StringSet} (h : ∀ x, x ∈ s ↔ x ∈ t) : s = t := by
  cases s; cases t
  congr
  exact eq_of_sorted ‹_› ‹_› h

@[simp]
theorem contains_iff {s : StringSet} {x : String} : s.contains x = true ↔ x ∈ s := by
  simp [contains]

end StringSet

end DeadCode
