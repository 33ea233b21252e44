import DeadCode.Proofs.ByteOrder
import DeadCode.Text.Line

/-!
# DeadCode.Proofs.Line

The line of a place in a text. The binary search keeps two bounds with every line start below the
first one up to the offset and every one from the second on behind it (`IsBetween`), so whether it
hits a line start or misses all of them, it ends with the number of line starts up to the offset.
Those are the start of the text and one for each line feed before the offset. The line feeds are
counted among the bytes, so the offset may also lie inside a character.
-/

namespace DeadCode.Text

/-! ### Bytes -/

/-- Behind the first byte of a character stand bytes from 128 on. -/
theorem toNat_of_mem_utf8Digits {lead k n : Nat} {b : UInt8} (hlead : lead + dropDigits k n < 256)
    (hb : b ∈ utf8Digits lead k n) : b.toNat = lead + dropDigits k n ∨ 128 ≤ b.toNat := by
  induction k generalizing n with
  | zero =>
    left
    rw [List.mem_singleton.1 hb, UInt8.toNat_ofNat']
    exact Nat.mod_eq_of_lt hlead
  | succ k ih =>
    rcases List.mem_append.1 hb with hb | hb
    · exact ih hlead hb
    · right
      rw [List.mem_singleton.1 hb, UInt8.toNat_ofNat']
      omega

/-- Only the character itself has a byte below 128. -/
theorem toNat_of_mem_utf8EncodeChar {c : Char} {b : UInt8} (hb : b ∈ String.utf8EncodeChar c) :
    b.toNat = c.toNat ∨ 128 ≤ b.toNat := by
  rw [utf8EncodeChar_eq] at hb
  rcases toNat_of_mem_utf8Digits (utf8First_lt_256 (codePoint_lt c)) hb with h | h
  · rw [h, utf8Lead, utf8Following]
    split_ifs <;> simp [dropDigits] <;> omega
  · exact .inr h

/-- Only a line feed has the byte of a line feed. -/
theorem count_utf8EncodeChar {c : Char} (hc : c ≠ '\n') :
    (String.utf8EncodeChar c).count 10 = 0 := by
  refine List.count_eq_zero.2 fun hb => ?_
  rcases toNat_of_mem_utf8EncodeChar hb with h | h
  · exact hc (Char.toNat_inj.1 h.symm)
  · exact absurd h (by decide)

@[simp]
theorem length_flatMap_utf8EncodeChar (cs : List Char) :
    (cs.flatMap String.utf8EncodeChar).length = byteLength cs := by
  induction cs with
  | nil => rfl
  | cons c cs ih =>
    rw [List.flatMap_cons, List.length_append, ih, String.length_utf8EncodeChar, byteLength]

/-- A line feed is one byte, which no other character has. -/
theorem count_flatMap_utf8EncodeChar (cs : List Char) :
    (cs.flatMap String.utf8EncodeChar).count 10 = newlines cs := by
  induction cs with
  | nil => rfl
  | cons c cs ih =>
    rw [List.flatMap_cons, List.count_append, ih, newlines, newlines, List.count_cons]
    by_cases hc : c = '\n'
    · subst hc
      exact Nat.add_comm _ _
    · rw [count_utf8EncodeChar hc, if_neg (by simpa using hc)]
      exact Nat.add_comm _ _

@[simp]
theorem byteLength_append (as bs : List Char) :
    byteLength (as ++ bs) = byteLength as + byteLength bs := by
  induction as with
  | nil => simp [byteLength]
  | cons c as ih =>
    rw [List.cons_append, byteLength, byteLength, ih]
    omega

@[simp]
theorem newlines_append (as bs : List Char) : newlines (as ++ bs) = newlines as + newlines bs :=
  List.count_append

/-! ### Line starts -/

theorem lt_of_mem_lineStartsFrom {offset start : Nat} {cs : List Char}
    (h : start ∈ lineStartsFrom offset cs) : offset < start := by
  induction cs generalizing offset with
  | nil => cases h
  | cons c cs ih =>
    have hpos : 0 < c.utf8Size := c.utf8Size_pos
    rw [lineStartsFrom] at h
    split at h
    · rcases List.mem_cons.1 h with rfl | h
      · omega
      · exact Nat.lt_of_le_of_lt (Nat.le_add_right _ _) (ih h)
    · exact Nat.lt_of_le_of_lt (Nat.le_add_right _ _) (ih h)

/-- The starts of lines are found in increasing order. -/
theorem pairwise_lineStartsFrom (offset : Nat) (cs : List Char) :
    (lineStartsFrom offset cs).Pairwise (· < ·) := by
  induction cs generalizing offset with
  | nil => exact .nil
  | cons c cs ih =>
    rw [lineStartsFrom]
    split
    · exact .cons (fun _ => lt_of_mem_lineStartsFrom) (ih _)
    · exact ih _

/-- No line starts inside the first character. -/
theorem le_of_mem_lineStartsFrom_cons {offset start : Nat} {c : Char} {cs : List Char}
    (h : start ∈ lineStartsFrom offset (c :: cs)) : offset + c.utf8Size ≤ start := by
  rw [lineStartsFrom] at h
  split at h
  · rcases List.mem_cons.1 h with rfl | h
    · exact Nat.le_refl _
    · exact Nat.le_of_lt (lt_of_mem_lineStartsFrom h)
  · exact Nat.le_of_lt (lt_of_mem_lineStartsFrom h)

/-- Up to `n` bytes behind the start, as many lines have started as there are line feeds among those
bytes. -/
theorem countP_lineStartsFrom (offset n : Nat) (cs : List Char) :
    (lineStartsFrom offset cs).countP (· ≤ offset + n) =
      ((cs.flatMap String.utf8EncodeChar).take n).count 10 := by
  induction cs generalizing offset n with
  | nil => simp [lineStartsFrom]
  | cons c cs ih =>
    have hsize := String.length_utf8EncodeChar c
    rw [List.flatMap_cons]
    rcases Nat.lt_or_ge n c.utf8Size with hn | hn
    · -- inside the first character
      have hstarts : (lineStartsFrom offset (c :: cs)).countP (· ≤ offset + n) = 0 := by
        refine List.countP_eq_zero.2 fun start hstart hle => ?_
        have hge := le_of_mem_lineStartsFrom_cons hstart
        have hle := of_decide_eq_true hle
        omega
      have hbytes : ((String.utf8EncodeChar c).take n).count 10 = 0 := by
        by_cases hc : c = '\n'
        · subst hc
          obtain rfl : n = 0 := Nat.lt_one_iff.1 hn
          rfl
        · have hle := (List.take_sublist n (String.utf8EncodeChar c)).count_le 10
          rwa [count_utf8EncodeChar hc, Nat.le_zero] at hle
      rw [hstarts, List.take_append_of_le_length (by omega), hbytes]
    -- behind the first character, which starts a line if it is a line feed
    · obtain ⟨n, rfl⟩ := Nat.exists_eq_add_of_le hn
      have hnext := ih (offset + c.utf8Size) n
      rw [Nat.add_assoc] at hnext
      have htake : (String.utf8EncodeChar c ++ cs.flatMap String.utf8EncodeChar).take
          (c.utf8Size + n) =
            String.utf8EncodeChar c ++ (cs.flatMap String.utf8EncodeChar).take n := by
        rw [← hsize, List.take_length_add_append]
      rw [htake, List.count_append, ← hnext, lineStartsFrom]
      split
      · next hc =>
        subst hc
        rw [List.countP_cons_of_pos (by simp)]
        exact Nat.add_comm _ _
      · next hc => rw [count_utf8EncodeChar hc, Nat.zero_add]

/-! ### The binary search -/

namespace LineIndex

/-- The bounds `lo` and `hi` enclose the number of line starts up to `offset`. -/
structure IsBetween (starts : Array Nat) (offset lo hi : Nat) : Prop where
  le : lo ≤ hi
  le_size : hi ≤ starts.size
  below : ∀ i < lo, starts.getD i 0 ≤ offset
  above : ∀ i < starts.size, hi ≤ i → offset < starts.getD i 0

theorem getD_lt_getD {starts : List Nat} (h : starts.Pairwise (· < ·)) {i j : Nat} (hij : i < j)
    (hj : j < starts.toArray.size) : starts.toArray.getD i 0 < starts.toArray.getD j 0 := by
  have hi := Nat.lt_trans hij hj
  have := List.pairwise_iff_getElem.1 h i j hi hj hij
  simpa [Array.getD, show i < starts.length from hi, show j < starts.length from hj] using this

theorem getD_le_getD {starts : List Nat} (h : starts.Pairwise (· < ·)) {i j : Nat} (hij : i ≤ j)
    (hj : j < starts.toArray.size) : starts.toArray.getD i 0 ≤ starts.toArray.getD j 0 := by
  rcases Nat.lt_or_eq_of_le hij with hlt | rfl
  · exact Nat.le_of_lt (getD_lt_getD h hlt hj)
  · exact Nat.le_refl _

/-- A hit divides the line starts behind it, a miss before the next one. -/
theorem IsBetween.search {starts : List Nat} {offset lo hi : Nat}
    (hsorted : starts.Pairwise (· < ·)) (h : IsBetween starts.toArray offset lo hi) :
    IsBetween starts.toArray offset (search starts.toArray offset lo hi).line
      (search starts.toArray offset lo hi).line := by
  fun_induction LineIndex.search starts.toArray offset lo hi with
  -- a hit: all starts up to it are at most the offset, and all behind it are greater
  | case1 lo hi hlt mid start hstart =>
    have hsize := h.le_size
    have hbound : mid < starts.toArray.size := by omega
    refine ⟨Nat.le_refl _, hbound, fun i hi => ?_, fun i hi hle => ?_⟩
    · exact hstart ▸ getD_le_getD hsorted (Nat.le_of_lt_succ hi) hbound
    · exact hstart ▸ getD_lt_getD hsorted hle hi
  | case2 lo hi hlt mid start hne hstart ih =>
    have hbound : mid < hi := by omega
    have hsize := h.le_size
    refine ih ⟨hbound, hsize, fun i hi => ?_, h.above⟩
    have hle := getD_le_getD hsorted (Nat.le_of_lt_succ hi) (by omega)
    exact Nat.le_trans hle (Nat.le_of_lt hstart)
  | case3 lo hi hlt mid start hne hstart ih =>
    have hbound : lo ≤ mid := by omega
    have hsize := h.le_size
    have hbehind : offset < start := by omega
    refine ih ⟨hbound, by omega, h.below, fun i hi hle => ?_⟩
    exact Nat.lt_of_lt_of_le hbehind (getD_le_getD hsorted hle hi)
  | case4 lo hi hlt =>
    obtain rfl : lo = hi := Nat.le_antisymm h.le (Nat.le_of_not_lt hlt)
    exact h

/-- When the search has closed in on one place, that is the number of starts up to the offset. -/
theorem IsBetween.countP_eq {starts : List Nat} {offset n : Nat}
    (h : IsBetween starts.toArray offset n n) : starts.countP (· ≤ offset) = n := by
  have hsize : n ≤ starts.length := h.le_size
  have htake : (starts.take n).countP (· ≤ offset) = (starts.take n).length := by
    refine List.countP_eq_length.2 fun start hstart => ?_
    obtain ⟨i, hi, rfl⟩ := List.mem_take_iff_getElem.1 hstart
    have := h.below i (by omega)
    simpa [Array.getD, show i < starts.length by omega] using this
  have hdrop : (starts.drop n).countP (· ≤ offset) = 0 := by
    refine List.countP_eq_zero.2 fun start hstart => ?_
    obtain ⟨i, hi, rfl⟩ := List.mem_drop_iff_getElem.1 hstart
    have := h.above (n + i) (by simpa using by omega) (by omega)
    simpa [Array.getD, show n + i < starts.length by omega] using this
  rw [← List.take_append_drop n starts, List.countP_append, htake, hdrop, List.length_take]
  omega

/-- On line starts in increasing order the search counts those up to the offset. -/
theorem line_search {starts : List Nat} (h : starts.Pairwise (· < ·)) (offset : Nat) :
    (search starts.toArray offset 0 starts.toArray.size).line = starts.countP (· ≤ offset) := by
  have hall : IsBetween starts.toArray offset 0 starts.toArray.size :=
    ⟨Nat.zero_le _, Nat.le_refl _, fun _ hi => absurd hi (Nat.not_lt_zero _),
      fun _ hi hle => absurd hi (Nat.not_lt.2 hle)⟩
  exact (hall.search h).countP_eq.symm

/-- The number of the line in which an offset lies is one more than the line feeds among the bytes
before it. -/
theorem lineAt_ofText_eq_count (cs : List Char) (offset : Nat) :
    (ofText cs).lineAt offset = ((cs.flatMap String.utf8EncodeChar).take offset).count 10 + 1 := by
  have hsorted : (0 :: lineStartsFrom 0 cs).Pairwise (· < ·) :=
    .cons (fun _ => lt_of_mem_lineStartsFrom) (pairwise_lineStartsFrom _ _)
  have hcount := countP_lineStartsFrom 0 offset cs
  rw [Nat.zero_add] at hcount
  rw [lineAt, ofText, line_search hsorted, List.countP_cons_of_pos (by simp), hcount]

/-- The number of the line in which a place lies is one more than the line feeds before it. -/
theorem lineAt_ofText (as bs : List Char) :
    (ofText (as ++ bs)).lineAt (byteLength as) = newlines as + 1 := by
  rw [lineAt_ofText_eq_count, List.flatMap_append, ← length_flatMap_utf8EncodeChar,
    List.take_left, count_flatMap_utf8EncodeChar]

end LineIndex

end DeadCode.Text
