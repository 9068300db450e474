import Mathlib.Data.List.Induction
import StreamLexer.Proofs.Stream.Encoding
import StreamLexer.Proofs.Text.Translation

/-! # Positions between the characters of a text

A position is counted up character by character. As long as no counter is full it says how many
lines the text before it has, how long the last of them is, and how many bytes encode it all; so
the positions of one text are in the same order as their offsets.
-/

set_option autoImplicit false

namespace StreamLexer

theorem Utf8.length_encode_pos {text : List Char} (h : text ≠ []) : 0 < (encode text).length := by
  obtain ⟨c, rest, rfl⟩ := List.exists_cons_of_ne_nil h
  have hsize := c.utf8Size_pos
  rw [encode_cons, List.length_append, String.length_utf8EncodeChar]
  omega

namespace Position

/-- The position behind a text, by what the text has in it. -/
def behind (text : List Char) : Position where
  line := 1 + text.count '\n'
  column := 1 + (text.reverse.takeWhile (· ≠ '\n')).length
  offset := (Utf8.encode text).length

theorem behind_concat (text : List Char) (c : Char) :
    behind (text ++ [c]) =
      if c = '\n' then ⟨(behind text).line + 1, 1, (behind text).offset + c.utf8Size⟩
      else ⟨(behind text).line, (behind text).column + 1, (behind text).offset + c.utf8Size⟩ := by
  have hoffset : (Utf8.encode (text ++ [c])).length =
      (Utf8.encode text).length + c.utf8Size := by
    simp [Utf8.encode]
  simp only [behind, hoffset, List.count_append, List.reverse_append, List.reverse_singleton,
    List.singleton_append]
  split
  · rename_i hc
    subst hc
    rfl
  · rename_i hc
    simp [hc, Nat.add_assoc]

theorem pastAll_start {text : List Char} (h : text.length < maxCount) :
    start.pastAll text = behind text := by
  induction text using List.reverseRecOn with
  | nil => rfl
  | append_singleton text c ih =>
    have hroom := room_start h
    rw [List.length_append] at h hroom
    have hlast := hroom.pastAll.past_eq c
    rw [pastAll_append, pastAll_cons, pastAll_nil, hlast, ih (by omega), behind_concat]

/-- A position that stands before, behind or between the characters of the text. -/
def IsBoundary (text : List Char) (p : Position) : Prop :=
  ∃ before after, before ++ after = text ∧ p = behind before

/-- Behind more of the text there are more lines, or the last line is longer. -/
theorem compare_behind_append (before : List Char) {extra : List Char} (h : extra ≠ []) :
    compare (behind before) (behind (before ++ extra)) = .lt := by
  have hline : (behind (before ++ extra)).line = (behind before).line + extra.count '\n' := by
    simp only [behind, List.count_append, Nat.add_assoc]
  by_cases hbreak : '\n' ∈ extra
  · have hcount := List.count_pos_iff.mpr hbreak
    have hlt : compare (behind before).line (behind (before ++ extra)).line = .lt :=
      Nat.compare_eq_lt.mpr (by omega)
    change Ordering.then _ _ = _
    rw [hlt]
    rfl
  · have heq : compare (behind before).line (behind (before ++ extra)).line = .eq :=
      Nat.compare_eq_eq.mpr (by rw [hline, List.count_eq_zero.mpr hbreak, Nat.add_zero])
    have hpositive : 0 < extra.length := List.length_pos_iff.mpr h
    have hcolumn : (behind (before ++ extra)).column = (behind before).column + extra.length := by
      have hall : ∀ c ∈ extra.reverse, decide (c ≠ '\n') = true := by
        intro c hc
        exact decide_eq_true (ne_of_mem_of_not_mem (List.mem_reverse.mp hc) hbreak)
      simp only [behind, List.reverse_append, List.takeWhile_append_of_pos hall,
        List.length_append, List.length_reverse]
      omega
    have hlt : compare (behind before).column (behind (before ++ extra)).column = .lt :=
      Nat.compare_eq_lt.mpr (by omega)
    change Ordering.then _ (Ordering.then _ _) = _
    rw [heq, hlt]
    rfl

theorem offset_behind_append (before : List Char) {extra : List Char} (h : extra ≠ []) :
    compare (behind before).offset (behind (before ++ extra)).offset = .lt := by
  have hextra := Utf8.length_encode_pos h
  apply Nat.compare_eq_lt.mpr
  simp only [behind, Utf8.encode_append, List.length_append]
  omega

theorem compare_swap (p q : Position) : (compare p q).swap = compare q p := by
  change (Ordering.then _ (Ordering.then _ _)).swap = Ordering.then _ (Ordering.then _ _)
  simp only [Ordering.swap_then, Nat.compare_swap]

theorem compare_self (p : Position) : compare p p = .eq := by
  have hself : ∀ n : Nat, compare n n = .eq := fun _ => Nat.compare_eq_eq.mpr rfl
  change Ordering.then _ (Ordering.then _ _) = _
  rw [hself, hself, hself]
  rfl

/-- On the positions of one text the order of lines and columns is the order of offsets. -/
theorem IsBoundary.compare_eq {text : List Char} {p q : Position} (hp : IsBoundary text p)
    (hq : IsBoundary text q) : compare p q = compare p.offset q.offset := by
  have hforward : ∀ before extra, compare (behind before) (behind (before ++ extra)) =
      compare (behind before).offset (behind (before ++ extra)).offset := by
    intro before extra
    by_cases h : extra = []
    · subst h
      rw [List.append_nil, compare_self, Nat.compare_eq_eq.mpr rfl]
    · rw [compare_behind_append before h, offset_behind_append before h]
  obtain ⟨before, after, htext, rfl⟩ := hp
  obtain ⟨before', after', htext', rfl⟩ := hq
  rcases List.prefix_or_prefix_of_prefix ⟨after, htext⟩ ⟨after', htext'⟩ with
    ⟨extra, rfl⟩ | ⟨extra, rfl⟩
  · exact hforward before extra
  · rw [← compare_swap, hforward, Nat.compare_swap]

end Position

end StreamLexer
