import StreamLexer.Text.Position
import StreamLexer.Text.Utf8

/-! # Positions seen from another start

A text that begins at `p` has its first line in the line of `p`, behind the columns before `p`; its
other lines begin at the left. As long as no counter reaches its largest value, counting from the
start of the text and translating is counting from `p`.
-/

set_option autoImplicit false

namespace StreamLexer.Position

/-- The position `q` of a text that itself begins at `p`. -/
def translate (p q : Position) : Position where
  line := p.line + (q.line - 1)
  column := if q.line = 1 then p.column + (q.column - 1) else q.column
  offset := p.offset + q.offset

/-- Lines and columns count from one. -/
structure Counted (p : Position) : Prop where
  line : 1 ≤ p.line
  column : 1 ≤ p.column

/-- So many characters can follow before a counter stays where it is. -/
structure Room (p : Position) (count : Nat) : Prop where
  line : p.line + count ≤ maxCount
  column : p.column + count ≤ maxCount
  offset : p.offset + 4 * count ≤ maxOffset

theorem translate_start (p : Position) : p.translate .start = p := rfl

theorem counted_start : Counted .start := ⟨Nat.le_refl 1, Nat.le_refl 1⟩

theorem Counted.past {p : Position} (h : p.Counted) (c : Char) : (p.past c).Counted := by
  obtain ⟨hline, hcolumn⟩ := h
  have hmax : 1 ≤ maxCount := by decide
  simp only [Position.past]
  split
  · exact ⟨by dsimp only; omega, Nat.le_refl 1⟩
  · exact ⟨hline, by dsimp only; omega⟩

theorem Counted.pastAll {p : Position} (h : p.Counted) (text : List Char) :
    (p.pastAll text).Counted := by
  induction text generalizing p with
  | nil => exact h
  | cons c text ih => exact ih (h.past c)

theorem room_start {text : List Char} (h : text.length < maxCount) : Room .start text.length := by
  refine ⟨?_, ?_, ?_⟩ <;> simp only [start, maxCount, maxOffset] at * <;> omega

theorem Room.past_eq {p : Position} {count : Nat} (h : p.Room (count + 1)) (c : Char) :
    p.past c = if c = '\n' then ⟨p.line + 1, 1, p.offset + c.utf8Size⟩
      else ⟨p.line, p.column + 1, p.offset + c.utf8Size⟩ := by
  obtain ⟨hline, hcolumn, hoffset⟩ := h
  have hsize := c.utf8Size_le_four
  have hnewLine : min (p.line + 1) maxCount = p.line + 1 := Nat.min_eq_left (by omega)
  have hnewColumn : min (p.column + 1) maxCount = p.column + 1 := Nat.min_eq_left (by omega)
  have hnewOffset : min (p.offset + c.utf8Size) maxOffset = p.offset + c.utf8Size :=
    Nat.min_eq_left (by omega)
  simp only [Position.past, hnewLine, hnewColumn, hnewOffset]

theorem Room.past {p : Position} {count : Nat} (h : p.Room (count + 1)) (c : Char) :
    (p.past c).Room count := by
  have hpast := h.past_eq c
  obtain ⟨hline, hcolumn, hoffset⟩ := h
  have hsize := c.utf8Size_le_four
  rw [hpast]
  split
  · refine ⟨?_, ?_, ?_⟩ <;> dsimp only <;> omega
  · refine ⟨?_, ?_, ?_⟩ <;> dsimp only <;> omega

theorem Room.pastAll {p : Position} {text : List Char} {count : Nat}
    (h : p.Room (text.length + count)) : (p.pastAll text).Room count := by
  induction text generalizing p with
  | nil => simpa using h
  | cons c text ih =>
    rw [List.length_cons, Nat.add_right_comm] at h
    exact ih (h.past c)

theorem Room.mono {p : Position} {few many : Nat} (h : p.Room many) (hle : few ≤ many) :
    p.Room few := by
  obtain ⟨hline, hcolumn, hoffset⟩ := h
  refine ⟨?_, ?_, ?_⟩ <;> omega

theorem Room.of_translate {p q : Position} {count : Nat} (hp : p.Counted)
    (h : (p.translate q).Room count) : q.Room count := by
  obtain ⟨hline, hcolumn, hoffset⟩ := h
  obtain ⟨hpline, hpcolumn⟩ := hp
  simp only [translate] at hline hcolumn hoffset
  refine ⟨by omega, ?_, by omega⟩
  split at hcolumn <;> omega

theorem translate_past {p q : Position} {count : Nat} (hp : p.Counted) (hq : q.Counted)
    (hroom : (p.translate q).Room (count + 1)) (c : Char) :
    p.translate (q.past c) = (p.translate q).past c := by
  obtain ⟨hqline, hqcolumn⟩ := hq
  rw [hroom.past_eq c, (hroom.of_translate hp).past_eq c]
  by_cases hc : c = '\n'
  · have hbelow : ¬q.line + 1 = 1 := by omega
    simp only [if_pos hc, translate, if_neg hbelow, mk.injEq, true_and]
    omega
  · by_cases hfirst : q.line = 1
    · simp only [if_neg hc, translate, if_pos hfirst, mk.injEq, true_and]
      omega
    · simp only [if_neg hc, translate, if_neg hfirst, mk.injEq, true_and]
      omega

theorem translate_pastAll {p q : Position} {text : List Char} (hp : p.Counted) (hq : q.Counted)
    (hroom : (p.translate q).Room text.length) :
    p.translate (q.pastAll text) = (p.translate q).pastAll text := by
  induction text generalizing q with
  | nil => rfl
  | cons c text ih =>
    have hpast := translate_past hp hq hroom c
    rw [pastAll_cons, pastAll_cons, ← hpast]
    exact ih (hq.past c) (hpast ▸ hroom.past c)

theorem offset_past (p : Position) (c : Char) :
    (p.past c).offset = min (p.offset + c.utf8Size) maxOffset := by
  rw [past]
  split <;> rfl

/-- Offsets are counted exactly as long as the bytes do not exceed the counter. -/
theorem offset_pastAll_of_le {p : Position} {text : List Char}
    (h : p.offset + (Utf8.encode text).length ≤ maxOffset) :
    (p.pastAll text).offset = p.offset + (Utf8.encode text).length := by
  induction text generalizing p with
  | nil => rfl
  | cons c text ih =>
    have hlength : (Utf8.encode (c :: text)).length =
        c.utf8Size + (Utf8.encode text).length := by
      rw [Utf8.encode, Utf8.encode, List.flatMap_cons, List.length_append,
        String.length_utf8EncodeChar]
    have hoffset : (p.past c).offset = p.offset + c.utf8Size := by
      rw [offset_past, Nat.min_eq_left (by omega)]
    rw [pastAll_cons, ih (by omega), hoffset, hlength, Nat.add_assoc]

theorem length_encode_le (text : List Char) : (Utf8.encode text).length ≤ 4 * text.length := by
  induction text with
  | nil => exact Nat.le_refl 0
  | cons c text ih =>
    have hsize := c.utf8Size_le_four
    rw [Utf8.encode] at ih ⊢
    rw [List.flatMap_cons, List.length_append, String.length_utf8EncodeChar, List.length_cons]
    omega

theorem offset_pastAll {p : Position} {text : List Char} (hroom : p.Room text.length) :
    (p.pastAll text).offset = p.offset + (Utf8.encode text).length := by
  have hlength := length_encode_le text
  have hoffset := hroom.offset
  exact offset_pastAll_of_le (by omega)

end StreamLexer.Position
