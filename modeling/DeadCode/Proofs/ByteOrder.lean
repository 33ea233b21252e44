import Mathlib.Data.List.Basic

/-!
# DeadCode.Proofs.ByteOrder

The order of strings is the order of their bytes in UTF-8. A character is encoded by the digits of
its code point in base 64. More digits come with a greater first byte, and as many digits are
compared from the first one on, so a greater character has greater bytes whatever follows it.
-/

namespace DeadCode

/-- The bytes of a string in UTF-8. -/
def utf8Bytes (s : String) : List UInt8 := s.toUTF8.data.toList

/-- The bytes of a string are those of its characters in turn. -/
theorem utf8Bytes_eq (s : String) : utf8Bytes s = s.toList.flatMap String.utf8EncodeChar := by
  rw [utf8Bytes, String.toUTF8, ← String.utf8Encode_toList, List.utf8Encode]
  simp

/-! ### Characters -/

/-- The last `k` digits of `n` in base 64 as bytes that continue a character, behind a byte for the
digits before them, which are added to `lead`. -/
def utf8Digits (lead : Nat) : Nat → Nat → List UInt8
  | 0, n => [.ofNat (lead + n)]
  | k + 1, n => utf8Digits lead k (n / 64) ++ [.ofNat (128 + n % 64)]

theorem ofNat_lt_ofNat {m n : Nat} (hn : n < 256) (h : m < n) : UInt8.ofNat m < .ofNat n := by
  rw [UInt8.lt_iff_toNat_lt, UInt8.toNat_ofNat', UInt8.toNat_ofNat']
  omega

/-- What is left of `n` without its last `k` digits in base 64. -/
def dropDigits : Nat → Nat → Nat
  | 0, n => n
  | k + 1, n => dropDigits k (n / 64)

theorem exists_cons_utf8Digits (lead k n : Nat) :
    ∃ rest, utf8Digits lead k n = .ofNat (lead + dropDigits k n) :: rest := by
  induction k generalizing n with
  | zero => exact ⟨[], rfl⟩
  | succ k ih =>
    obtain ⟨rest, hrest⟩ := ih (n / 64)
    exact ⟨_, by rw [utf8Digits, hrest, List.cons_append, dropDigits]⟩

/-- Of two code points with as many bytes, the smaller one has the smaller bytes, whatever follows
them. -/
theorem utf8Digits_append_lt {lead k m n : Nat} (h : m < n) (hn : lead + dropDigits k n < 256)
    (xs ys : List UInt8) : utf8Digits lead k m ++ xs < utf8Digits lead k n ++ ys := by
  induction k generalizing m n xs ys with
  | zero => exact List.cons_lt_cons_iff.2 (.inl (ofNat_lt_ofNat hn (by omega)))
  | succ k ih =>
    rw [utf8Digits, utf8Digits, List.append_assoc, List.append_assoc]
    -- the last digit counts only if those before it are the same
    obtain hdiv | ⟨hdiv, hmod⟩ : m / 64 < n / 64 ∨ m / 64 = n / 64 ∧ m % 64 < n % 64 := by omega
    · exact ih hdiv hn _ _
    · rw [hdiv]
      have hlast : UInt8.ofNat (128 + m % 64) < .ofNat (128 + n % 64) :=
        ofNat_lt_ofNat (by omega) (by omega)
      exact List.append_left_lt (List.cons_lt_cons_iff.2 (.inl hlast))

/-- How many bytes follow the first one of a code point. -/
def utf8Following (n : Nat) : Nat :=
  if n ≤ 0x7F then 0 else if n ≤ 0x7FF then 1 else if n ≤ 0xFFFF then 2 else 3

/-- What the first byte adds to the digits that it holds. -/
def utf8Lead (n : Nat) : Nat :=
  if n ≤ 0x7F then 0 else if n ≤ 0x7FF then 0xC0 else if n ≤ 0xFFFF then 0xE0 else 0xF0

theorem codePoint_lt (c : Char) : c.toNat < 0x110000 := by
  obtain h | ⟨-, h⟩ : Nat.isValidChar c.toNat := c.valid <;> omega

/-- A character is encoded by its lead and as many digits as its size asks for. -/
theorem utf8EncodeChar_eq (c : Char) :
    String.utf8EncodeChar c = utf8Digits (utf8Lead c.toNat) (utf8Following c.toNat) c.toNat := by
  have hc : c.val.toNat = c.toNat := rfl
  have hlt := codePoint_lt c
  rw [String.utf8EncodeChar.eq_1, hc, utf8Lead, utf8Following]
  split_ifs
  · simp [utf8Digits]
  · have hfirst : c.toNat / 64 % 32 = c.toNat / 64 := by omega
    simp [utf8Digits, hfirst, Nat.add_comm]
  · have hfirst : c.toNat / 4096 % 16 = c.toNat / 4096 := by omega
    simp [utf8Digits, hfirst, Nat.add_comm, Nat.div_div_eq_div_mul]
  · have hfirst : c.toNat / 262144 % 8 = c.toNat / 262144 := by omega
    simp [utf8Digits, hfirst, Nat.add_comm, Nat.div_div_eq_div_mul]

/-- The first byte of a code point. -/
def utf8First (n : Nat) : Nat := utf8Lead n + dropDigits (utf8Following n) n

theorem exists_cons_utf8EncodeChar (c : Char) :
    ∃ rest, String.utf8EncodeChar c = .ofNat (utf8First c.toNat) :: rest := by
  rw [utf8EncodeChar_eq]
  exact exists_cons_utf8Digits _ _ _

theorem utf8First_lt_256 {n : Nat} (hn : n < 0x110000) : utf8First n < 256 := by
  unfold utf8First utf8Lead utf8Following
  split_ifs <;> simp [dropDigits] <;> omega

/-- More bytes come with a greater first one. -/
theorem utf8First_lt {m n : Nat} (h : m < n) (hn : n < 0x110000) :
    (utf8Lead m = utf8Lead n ∧ utf8Following m = utf8Following n) ∨ utf8First m < utf8First n := by
  unfold utf8First utf8Lead utf8Following
  split_ifs <;> simp [dropDigits] <;> omega

/-- The bytes of a smaller character are smaller, whatever follows them. -/
theorem utf8EncodeChar_append_lt {a b : Char} (h : a < b) (xs ys : List UInt8) :
    String.utf8EncodeChar a ++ xs < String.utf8EncodeChar b ++ ys := by
  have hlt : a.toNat < b.toNat := h
  have hfirst := utf8First_lt_256 (codePoint_lt b)
  obtain ⟨hlead, hfollowing⟩ | hless := utf8First_lt hlt (codePoint_lt b)
  · rw [utf8EncodeChar_eq, utf8EncodeChar_eq, hlead, hfollowing]
    exact utf8Digits_append_lt hlt hfirst xs ys
  · obtain ⟨rest, hrest⟩ := exists_cons_utf8EncodeChar a
    obtain ⟨rest', hrest'⟩ := exists_cons_utf8EncodeChar b
    rw [hrest, hrest']
    exact List.cons_lt_cons_iff.2 (.inl (ofNat_lt_ofNat hfirst hless))

/-! ### Strings -/

/-- The first characters in which two texts differ decide the order of their bytes. -/
theorem flatMap_utf8EncodeChar_lt {cs ds : List Char} (h : cs < ds) :
    cs.flatMap String.utf8EncodeChar < ds.flatMap String.utf8EncodeChar := by
  induction cs generalizing ds with
  | nil =>
    obtain _ | ⟨d, ds⟩ := ds
    · exact absurd h (List.not_lt_nil _)
    · obtain ⟨rest, hrest⟩ := exists_cons_utf8EncodeChar d
      rw [List.flatMap_nil, List.flatMap_cons, hrest]
      exact List.nil_lt_cons _ _
  | cons c cs ih =>
    obtain _ | ⟨d, ds⟩ := ds
    · exact absurd h (List.not_lt_nil _)
    · rw [List.flatMap_cons, List.flatMap_cons]
      obtain hlt | ⟨rfl, hlt⟩ := List.cons_lt_cons_iff.1 h
      · exact utf8EncodeChar_append_lt hlt _ _
      · exact List.append_left_lt (ih hlt)

/-- The order of strings by code points is the order of their bytes. -/
theorem utf8Bytes_lt_iff {s t : String} : utf8Bytes s < utf8Bytes t ↔ s < t := by
  have hlt {s t : String} (h : s < t) : utf8Bytes s < utf8Bytes t := by
    rw [utf8Bytes_eq, utf8Bytes_eq]
    exact flatMap_utf8EncodeChar_lt (String.lt_iff.1 h)
  refine ⟨fun h => ?_, hlt⟩
  obtain hst | rfl | hts := Std.Trichotomous.rel_or_eq_or_rel_swap
    (r := (· < · : String → String → Prop)) (a := s) (b := t)
  · exact hst
  · exact absurd h (List.lt_irrefl _)
  · exact absurd h (List.lt_asymm (hlt hts))

end DeadCode
