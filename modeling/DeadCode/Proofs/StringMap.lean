import DeadCode.Ordered.StringMap

/-!
# DeadCode.Proofs.StringMap

Lookup laws of `StringMap`. Every operation is described by what `find?` sees afterwards, so nothing
that uses a map has to look at its listing. The laws of a single update stand beside the maps; here
are those of many updates at once, and of maps made from lists and from other maps.
-/

namespace DeadCode.StringMap

variable {β : Type}

/-! ### Entries -/

theorem nodup_of_sorted {l : List String} (h : l.Pairwise (· < ·)) : l.Nodup := by
  refine h.imp ?_
  rintro a _ hlt rfl
  exact String.lt_irrefl a hlt

/-- Where keys are distinct, an entry is found under its key. -/
theorem mem_iff_lookup {k : String} {v : β} {l : List (String × β)}
    (hl : (l.map Prod.fst).Nodup) : (k, v) ∈ l ↔ l.lookup k = some v := by
  induction l with
  | nil => simp
  | cons e l ih =>
    obtain ⟨k', w⟩ := e
    obtain ⟨hk', hl'⟩ := List.nodup_cons.1 hl
    rw [List.mem_cons, ih hl', List.lookup_cons]
    by_cases h : k = k'
    · subst h
      have hnone : l.lookup k = none :=
        Option.not_isSome_iff_eq_none.1 fun hk => hk' (lookup_isSome_iff_mem_keys.1 hk)
      simp [hnone, eq_comm]
    · simp [beq_eq_false_iff_ne.2 h, h]

/-! ### The maps -/

theorem mem_toList {m : StringMap β} {k : String} {v : β} :
    (k, v) ∈ m.toList ↔ m.find? k = some v :=
  mem_iff_lookup (nodup_of_sorted m.sorted)

theorem contains_iff_mem_keys {m : StringMap β} {k : String} :
    m.contains k = true ↔ k ∈ m.keys :=
  lookup_isSome_iff_mem_keys

theorem mem_keys {m : StringMap β} {k : String} : k ∈ m.keys ↔ ∃ v, m.find? k = some v := by
  rw [← contains_iff_mem_keys, contains, Option.isSome_iff_exists]

theorem find?_filterMap {γ : Type} (m : StringMap β) (f : String → β → Option γ) (k : String) :
    (m.filterMap f).find? k = (m.find? k).bind (f k) := by
  refine Option.ext fun w => ?_
  rw [← mem_toList, Option.bind_eq_some_iff]
  simp only [filterMap, List.mem_filterMap, Prod.exists, Option.map_eq_some_iff, Prod.mk.injEq,
    mem_toList]
  constructor
  · intro h
    obtain ⟨_, v, hv, _, hw, rfl, rfl⟩ := h
    exact ⟨v, hv, hw⟩
  · intro h
    obtain ⟨v, hv, hw⟩ := h
    exact ⟨k, v, hv, w, hw, rfl, rfl⟩

theorem mem_keys_of_filterMap {γ : Type} {m : StringMap β} {f : String → β → Option γ} {k : String}
    (h : k ∈ (m.filterMap f).keys) : k ∈ m.keys :=
  (keys_filterMap_sublist f m.toList).subset h

/-- A map is what is found in it. -/
theorem ext_find? {m m' : StringMap β} (h : ∀ k, m.find? k = m'.find? k) : m = m' := by
  have hpairs : ∀ m : StringMap β, m.toList.Pairwise (·.1 < ·.1) := fun m =>
    List.pairwise_map.1 m.sorted
  have hnodup : ∀ m : StringMap β, m.toList.Nodup := by
    refine fun m => (hpairs m).imp ?_
    rintro a _ hlt rfl
    exact String.lt_irrefl _ hlt
  have hperm : m.toList.Perm m'.toList := by
    refine (List.perm_ext_iff_of_nodup (hnodup m) (hnodup m')).2 ?_
    rintro ⟨k, v⟩
    rw [mem_toList, mem_toList, h k]
  have hlist : m.toList = m'.toList := by
    refine hperm.eq_of_pairwise ?_ (hpairs m) (hpairs m')
    intro a b _ _ hab hba
    exact absurd hba (String.lt_asymm hab)
  cases m
  cases m'
  congr

theorem find?_insertIfNew (m : StringMap β) (k : String) (v : β) (x : String) :
    (m.insertIfNew k v).find? x = if x = k then some ((m.find? k).getD v) else m.find? x :=
  find?_alter m k _ x

/-- Of the inserted entries of a key the last one is found, and without any the old one. -/
theorem find?_insertMany (m : StringMap β) (entries : List (String × β)) (x : String) :
    (m.insertMany entries).find? x = (entries.reverse.lookup x).or (m.find? x) := by
  induction entries generalizing m with
  | nil => rfl
  | cons e entries ih =>
    obtain ⟨k, v⟩ := e
    have h : m.insertMany ((k, v) :: entries) = (m.insert k v).insertMany entries := rfl
    rw [h, ih, find?_insert, List.reverse_cons, List.lookup_append, Option.or_assoc]
    congr 1
    rw [List.lookup_cons]
    by_cases hx : x = k
    · simp [hx]
    · simp [beq_eq_false_iff_ne.2 hx, hx]

theorem mem_of_find?_insertMany {m : StringMap β} {entries : List (String × β)} {k : String} {v : β}
    (h : (m.insertMany entries).find? k = some v) : (k, v) ∈ entries ∨ m.find? k = some v := by
  rw [find?_insertMany] at h
  refine (Option.or_eq_some_iff.1 h).imp (fun hlookup => ?_) And.right
  obtain ⟨before, after, heq, -⟩ := List.lookup_eq_some_iff.1 hlookup
  rw [← List.mem_reverse, heq]
  exact List.mem_append_right _ (List.mem_cons_self ..)

/-- The entries of another map take the place of those of the same keys. -/
theorem find?_insertMany_toList (m m' : StringMap β) (x : String) :
    (m.insertMany m'.toList).find? x = (m'.find? x).or (m.find? x) := by
  have hnodup : (m'.toList.reverse.map Prod.fst).Nodup := by
    rw [List.map_reverse]
    exact List.pairwise_reverse.2 ((nodup_of_sorted m'.sorted).imp Ne.symm)
  have hreverse : m'.toList.reverse.lookup x = m'.find? x :=
    Option.ext fun v => by rw [← mem_iff_lookup hnodup, List.mem_reverse, mem_toList]
  rw [find?_insertMany, hreverse]

theorem ofList_toList (m : StringMap β) : ofList m.toList = m := by
  refine ext_find? fun k => ?_
  rw [ofList, find?_insertMany_toList, find?_empty, Option.or_none]

theorem mem_keys_insertMany {m : StringMap β} {entries : List (String × β)} {x : String} :
    x ∈ (m.insertMany entries).keys ↔ x ∈ m.keys ∨ x ∈ entries.map Prod.fst := by
  rw [← contains_iff_mem_keys, ← contains_iff_mem_keys, contains, contains, find?_insertMany,
    Option.isSome_or, Bool.or_eq_true, lookup_isSome_iff_mem_keys, List.map_reverse,
    List.mem_reverse]
  exact or_comm

theorem mem_keys_ofList {entries : List (String × β)} {x : String} :
    x ∈ (ofList entries).keys ↔ x ∈ entries.map Prod.fst := by
  rw [ofList, mem_keys_insertMany]
  simp [keys, empty]

end DeadCode.StringMap
