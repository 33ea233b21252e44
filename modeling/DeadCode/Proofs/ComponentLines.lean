import DeadCode.Proofs.Line
import DeadCode.Proofs.Text
import DeadCode.Script.Component

/-!
# DeadCode.Proofs.ComponentLines

Script blocks and the lines on which they stand. A block is found with the number of line feeds
before its body, which is counted along the way; a place in a text is given its line by a binary
search over the line starts. Both are the same count (`lineAt_counts_newlines`).
-/

namespace DeadCode

namespace Script

open Text

/-! ### Script blocks -/

theorem suffix_of_expect {word : String} {cs rest : List Char}
    (h : Text.expect word cs = some rest) : rest <:+ cs :=
  ⟨word.toList, (Text.dropPrefix?_eq_some_iff.1 h).symm⟩

theorem suffix_of_expectAnyCase {letters cs rest : List Char}
    (h : expectAnyCase.go letters cs = some rest) : rest <:+ cs := by
  fun_induction expectAnyCase.go letters cs with
  | case1 cs => exact Option.some.inj h ▸ List.suffix_rfl
  | case2 l ls c cs hc ih => exact (ih h).trans (List.suffix_cons c cs)
  | case3 => cases h
  | case4 => cases h

/-- What follows the attributes of a block is an end of the text. -/
theorem suffix_of_takeAttributes {quote : Option Char} {cs attributes rest : List Char}
    (h : takeAttributes quote cs = some (attributes, rest)) : rest <:+ cs := by
  induction cs generalizing quote attributes with
  | nil => cases h
  | cons c cs ih =>
    -- all branches but the closing bracket keep the character and go on
    have hkeep : ∀ {quote : Option Char},
        (takeAttributes quote cs).map (fun taken => (c :: taken.1, taken.2)) =
          some (attributes, rest) → rest <:+ c :: cs := by
      intro quote h
      obtain ⟨⟨text, rest'⟩, htake, heq⟩ := Option.map_eq_some_iff.1 h
      cases heq
      exact (ih htake).trans (List.suffix_cons c cs)
    cases quote with
    | some q => exact hkeep h
    | none =>
      rw [takeAttributes] at h
      split at h
      · cases h
        exact List.suffix_cons c rest
      · exact hkeep h

/-- The body of a block starts where its opening tag ends. -/
theorem prefix_of_takeBody {cs body rest : List Char} (h : takeBody cs = some (body, rest)) :
    body <+: cs := by
  induction cs generalizing body with
  | nil => cases h
  | cons c cs ih =>
    rw [takeBody] at h
    split at h
    · cases h
      exact List.nil_prefix
    · obtain ⟨⟨body', rest'⟩, htake, heq⟩ := Option.map_eq_some_iff.1 h
      cases heq
      exact List.cons_prefix_cons.2 ⟨rfl, ih htake⟩

/-- The body of a script block stands behind its first `bodyStart` characters. -/
theorem exists_append_of_scriptBlock {before : Option Char} {cs after : List Char}
    {block : ScriptBlock} (h : scriptBlock before cs = some (block, after)) :
    ∃ behind, cs = cs.take block.bodyStart ++ (block.body ++ behind) := by
  obtain ⟨opened, hopened, h⟩ := Option.bind_eq_some_iff.1 h
  obtain ⟨named, hnamed, h⟩ := Option.bind_eq_some_iff.1 h
  split at h
  · cases h
  · obtain ⟨⟨attributes, tagged⟩, htagged, h⟩ := Option.bind_eq_some_iff.1 h
    obtain ⟨⟨body, rest⟩, hbody, h⟩ := Option.bind_eq_some_iff.1 h
    cases h
    have htail : tagged <:+ cs := (suffix_of_takeAttributes htagged).trans
      ((suffix_of_expectAnyCase hnamed).trans (suffix_of_expect hopened))
    obtain ⟨tag, rfl⟩ := htail
    obtain ⟨behind, rfl⟩ := prefix_of_takeBody hbody
    exact ⟨behind, by simp⟩

/-- A script block is recognised somewhere in the text, and comes with the number of line feeds
before its body. -/
theorem exists_block_of_mem_scriptBlocksFrom {skip lines : Nat} {cs : List Char}
    {entry : Nat × ScriptBlock} (h : entry ∈ scriptBlocksFrom skip lines cs) :
    ∃ start rest after, cs = start ++ rest ∧ scriptBlock none rest = some (entry.2, after) ∧
      entry.1 = lines + newlines (start ++ rest.take entry.2.bodyStart) := by
  -- the line feeds of the characters that are passed are counted already
  have hcons {lines : Nat} {c : Char} {cs : List Char}
      (h : ∃ start rest after, cs = start ++ rest ∧ scriptBlock none rest = some (entry.2, after) ∧
        entry.1 = lines + newlines [c] + newlines (start ++ rest.take entry.2.bodyStart)) :
      ∃ start rest after, c :: cs = start ++ rest ∧
        scriptBlock none rest = some (entry.2, after) ∧
        entry.1 = lines + newlines (start ++ rest.take entry.2.bodyStart) := by
    obtain ⟨start, rest, after, rfl, hblock, hlines⟩ := h
    refine ⟨c :: start, rest, after, rfl, hblock, ?_⟩
    rw [hlines, Nat.add_assoc, ← newlines_append]
    rfl
  fun_induction scriptBlocksFrom skip lines cs with
  | case1 => cases h
  | case2 skip lines c cs ih => exact hcons (ih h)
  | case3 lines c cs block after hblock ih =>
    rcases List.mem_cons.1 h with rfl | h
    · exact ⟨[], c :: cs, after, rfl, hblock, rfl⟩
    · exact hcons (ih h)
  | case4 lines c cs hnone ih => exact hcons (ih h)

/-- The body of a script block is a part of the text, and the block comes with the number of line
feeds before that part. -/
theorem exists_append_of_mem_scriptBlocksFrom {skip lines : Nat} {cs : List Char}
    {entry : Nat × ScriptBlock} (h : entry ∈ scriptBlocksFrom skip lines cs) :
    ∃ before behind, cs = before ++ (entry.2.body ++ behind) ∧
      entry.1 = lines + newlines before := by
  obtain ⟨start, rest, after, rfl, hblock, hlines⟩ := exists_block_of_mem_scriptBlocksFrom h
  obtain ⟨behind, hrest⟩ := exists_append_of_scriptBlock hblock
  exact ⟨_, behind, by rw [List.append_assoc, ← hrest], hlines⟩

end Script

/-! ### Lines -/

namespace Text.LineIndex

/-- The line of an offset is one more than the line feeds among the bytes before it; at the end of
a stretch of characters, one more than the line feeds in the stretch; and at the body of a script
block, one more than the line feeds with which the block is found. -/
theorem lineAt_counts_newlines (text : String) :
    (∀ offset, (ofText text.toList).lineAt offset =
      1 + ((utf8Bytes text).take offset).count 10) ∧
    (∀ before behind, text.toList = before ++ behind →
      (ofText text.toList).lineAt (byteLength before) = 1 + newlines before) ∧
    ∀ entry ∈ Script.scriptBlocksFrom 0 0 text.toList,
      ∃ start rest after, text.toList = start ++ rest ∧
        Script.scriptBlock none rest = some (entry.2, after) ∧
        (ofText text.toList).lineAt (byteLength (start ++ rest.take entry.2.bodyStart)) =
          1 + entry.1 := by
  have hchars : ∀ before behind, text.toList = before ++ behind →
      (ofText text.toList).lineAt (byteLength before) = 1 + newlines before := by
    intro before behind htext
    rw [htext, lineAt_ofText, Nat.add_comm]
  refine ⟨fun offset => ?_, hchars, fun entry hentry => ?_⟩
  · rw [lineAt_ofText_eq_count, utf8Bytes_eq, Nat.add_comm]
  · obtain ⟨start, rest, after, htext, hblock, hlines⟩ :=
      Script.exists_block_of_mem_scriptBlocksFrom hentry
    refine ⟨start, rest, after, htext, hblock, ?_⟩
    have hbody : text.toList =
        (start ++ rest.take entry.2.bodyStart) ++ rest.drop entry.2.bodyStart := by
      rw [htext, List.append_assoc, List.take_append_drop]
    rw [hchars _ _ hbody, hlines, Nat.zero_add]

/-- Offsets inside a character and at an empty line, and the body of a script block. -/
theorem lineAt_component :
    (ofText "é\n\n<script>a</script>".toList).lineAt 1 = 1 ∧
      (ofText "é\n\n<script>a</script>".toList).lineAt 3 = 2 ∧
      (2, ⟨[], ['a'], 8⟩) ∈ Script.scriptBlocksFrom 0 0 "é\n\n<script>a</script>".toList ∧
      ∃ start rest after, "é\n\n<script>a</script>".toList = start ++ rest ∧
        Script.scriptBlock none rest = some (⟨[], ['a'], 8⟩, after) ∧
        (ofText "é\n\n<script>a</script>".toList).lineAt (byteLength (start ++ rest.take 8)) =
          1 + 2 := by
  obtain ⟨hbytes, -, hblocks⟩ := lineAt_counts_newlines "é\n\n<script>a</script>"
  have hfound : Script.scriptBlocksFrom 0 0 "é\n\n<script>a</script>".toList =
      [(2, ⟨[], ['a'], 8⟩)] := by rfl
  have hentry : (2, ⟨[], ['a'], 8⟩) ∈
      Script.scriptBlocksFrom 0 0 "é\n\n<script>a</script>".toList := by
    rw [hfound]
    exact List.mem_singleton_self _
  refine ⟨?_, ?_, hentry, hblocks _ hentry⟩
  · rw [hbytes]
    decide
  · rw [hbytes]
    decide

end Text.LineIndex

end DeadCode
