import DeadCode.Ordered.StringSet

/-!
# DeadCode.Ordered.StringMap

Finite maps from strings, listed in increasing order of their keys. As with `StringSet` the listing
carries its order, so a map is determined by its entries and prints in one way only.
-/

namespace DeadCode

/-- A map from strings as its listing by strictly increasing key. -/
structure StringMap (β : Type) where
  toList : List (String × β)
  sorted : (toList.map Prod.fst).Pairwise (· < ·)
  deriving DecidableEq

namespace StringMap

variable {β : Type}

/-! ### Updates of an increasing list -/

/-- Change the entry of `k`: `f` is given the present value, if there is one. -/
def alterIn (k : String) (f : Option β → β) : List (String × β) → List (String × β)
  | [] => [(k, f none)]
  | (k', v) :: rest =>
    if k < k' then (k, f none) :: (k', v) :: rest
    else if k = k' then (k', f (some v)) :: rest
    else (k', v) :: alterIn k f rest

theorem keys_alterIn (k : String) (f : Option β → β) (l : List (String × β)) :
    (alterIn k f l).map Prod.fst = StringSet.insertInto k (l.map Prod.fst) := by
  induction l with
  | nil => rfl
  | cons e rest ih =>
    obtain ⟨k', v⟩ := e
    rw [alterIn, List.map_cons, StringSet.insertInto]
    split
    · rfl
    · split
      · rfl
      · rw [List.map_cons, ih]

theorem sorted_alterIn (k : String) (f : Option β → β) {l : List (String × β)}
    (h : (l.map Prod.fst).Pairwise (· < ·)) :
    ((alterIn k f l).map Prod.fst).Pairwise (· < ·) :=
  keys_alterIn k f l ▸ StringSet.sorted_insertInto h

/-! ### Lookup in an increasing list

The order of the keys is what makes the laws of lookup hold: an entry that is put before the first
larger key hides no other entry of its own key. -/

theorem lookup_isSome_iff_mem_keys {k : String} {l : List (String × β)} :
    (l.lookup k).isSome = true ↔ k ∈ l.map Prod.fst := by
  rw [List.lookup_isSome_iff, List.mem_map]
  exact exists_congr fun e => and_congr_right fun _ => beq_iff_eq.trans eq_comm

/-- Behind a larger key there is no entry of `k`. -/
theorem lookup_eq_none_of_lt {k : String} {l : List (String × β)}
    (h : ∀ k' ∈ l.map Prod.fst, k < k') : l.lookup k = none :=
  Option.not_isSome_iff_eq_none.1 fun hk =>
    String.lt_irrefl k (h k (lookup_isSome_iff_mem_keys.1 hk))

theorem lookup_alterIn {k : String} (f : Option β → β) {l : List (String × β)}
    (hl : (l.map Prod.fst).Pairwise (· < ·)) (x : String) :
    (alterIn k f l).lookup x = if x = k then some (f (l.lookup k)) else l.lookup x := by
  induction l with
  | nil =>
    rw [alterIn, List.lookup_cons]
    by_cases hx : x = k
    · simp [hx]
    · simp [beq_eq_false_iff_ne.2 hx, hx]
  | cons e l ih =>
    obtain ⟨k', v⟩ := e
    obtain ⟨hk', hl'⟩ := List.pairwise_cons.1 hl
    rw [alterIn]
    split
    · next hlt =>
      -- the new entry goes first: all keys behind it are larger
      have hnone : List.lookup k ((k', v) :: l) = none := by
        refine lookup_eq_none_of_lt fun y hy => ?_
        rcases List.mem_cons.1 hy with rfl | hy
        · exact hlt
        · exact String.lt_trans hlt (hk' y hy)
      rw [hnone, List.lookup_cons]
      by_cases hx : x = k
      · simp [hx]
      · simp [beq_eq_false_iff_ne.2 hx, hx]
    · split
      · next h =>
        subst h
        simp only [List.lookup_cons, beq_self_eq_true]
        by_cases hx : x = k
        · simp [hx]
        · simp [beq_eq_false_iff_ne.2 hx, hx]
      · next hne =>
        simp only [List.lookup_cons, beq_eq_false_iff_ne.2 hne, ih hl']
        by_cases hx : x = k
        · subst hx
          simp [beq_eq_false_iff_ne.2 hne]
        · simp [hx]

/-! ### The maps -/

/-- The map without entries. -/
def empty : StringMap β := ⟨[], StringSet.sorted_nil⟩

instance : EmptyCollection (StringMap β) := ⟨empty⟩

instance : Inhabited (StringMap β) := ⟨empty⟩

/-- The value of `k`. -/
def find? (m : StringMap β) (k : String) : Option β := m.toList.lookup k

/-- Whether `k` has a value. -/
def contains (m : StringMap β) (k : String) : Bool := (m.find? k).isSome

/-- The keys in increasing order. -/
def keys (m : StringMap β) : List String := m.toList.map Prod.fst

/-- The number of entries. -/
def size (m : StringMap β) : Nat := m.toList.length

/-- The map with the value of `k` changed by `f`. -/
def alter (m : StringMap β) (k : String) (f : Option β → β) : StringMap β :=
  ⟨alterIn k f m.toList, sorted_alterIn k f m.sorted⟩

/-- The map with `v` as the value of `k`. -/
def insert (m : StringMap β) (k : String) (v : β) : StringMap β := m.alter k fun _ => v

/-- The map with `v` as the value of `k` unless `k` has one. -/
def insertIfNew (m : StringMap β) (k : String) (v : β) : StringMap β := m.alter k (·.getD v)

@[simp]
theorem find?_empty (k : String) : (empty : StringMap β).find? k = none := rfl

theorem find?_alter (m : StringMap β) (k : String) (f : Option β → β) (x : String) :
    (m.alter k f).find? x = if x = k then some (f (m.find? k)) else m.find? x :=
  lookup_alterIn f m.sorted x

theorem find?_insert (m : StringMap β) (k : String) (v : β) (x : String) :
    (m.insert k v).find? x = if x = k then some v else m.find? x :=
  find?_alter m k _ x

/-- Entries inserted from left to right, so the last one of a key stays. -/
def insertMany (m : StringMap β) (entries : List (String × β)) : StringMap β :=
  entries.foldl (fun m e => m.insert e.1 e.2) m

/-- The map of a list of entries, the last one of a key counting. -/
def ofList (entries : List (String × β)) : StringMap β := empty.insertMany entries

/-- The keys as a set. -/
def keySet (m : StringMap β) : StringSet := ⟨m.keys, m.sorted⟩

theorem keys_filterMap_sublist {γ : Type} (f : String → β → Option γ) (l : List (String × β)) :
    ((l.filterMap fun (k, v) => (f k v).map (k, ·)).map Prod.fst).Sublist (l.map Prod.fst) := by
  induction l with
  | nil => exact .slnil
  | cons e l ih =>
    obtain ⟨k, v⟩ := e
    cases h : f k v with
    | none => simpa [List.filterMap_cons, h] using ih.cons k
    | some w => simpa [List.filterMap_cons, h] using ih

/-- The map of the values that `f` gives; where it gives none there is no entry. -/
def filterMap {γ : Type} (f : String → β → Option γ) (m : StringMap β) : StringMap γ :=
  ⟨m.toList.filterMap fun (k, v) => (f k v).map (k, ·),
    m.sorted.sublist (keys_filterMap_sublist f m.toList)⟩

end StringMap

end DeadCode
