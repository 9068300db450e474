import StreamLexer.Proofs.Grammar.Composition
import StreamLexer.Proofs.Lexer.OnText
import StreamLexer.Proofs.Scan.Lookahead

/-! # One call in front of a text

A call in front of a text skips the gap before the next token, reads the token that starts with the
character behind the gap, and leaves the rest. Where nothing stands behind the gap it finds the end.
What a call does is therefore known once the text is split at these places.
-/

set_option autoImplicit false

namespace StreamLexer

open CharClass Grammar Lexer

/-- The item for a token that is read at `start`. -/
def Reading.placed (start : Position) (reading : Reading Token) : Except LexError Placed :=
  (reading.result.mapError (Fault.located start)).map fun token => ⟨token, start⟩

namespace View

variable {v : View} {gap left rest : List Char} {c : Char}

/-! ## The gap -/

/-- What a call in front of a text skips: blanks, and at the first call a mark before them. -/
def Skips (v : View) (gap : List Char) : Prop :=
  IsGap gap ∨ v.skipMark = true ∧ v.phase = .fresh ∧
    ∃ blanks, gap = byteOrderMark :: blanks ∧ IsGap blanks

theorem Skips.append (h : v.Skips gap) {blanks : List Char} (hblanks : IsGap blanks) :
    v.Skips (gap ++ blanks) := by
  have happend : ∀ {before : List Char}, IsGap before → IsGap (before ++ blanks) :=
    fun hbefore c hc => (List.mem_append.mp hc).elim (hbefore c) (hblanks c)
  rcases h with hgap | ⟨hskip, hfresh, before, rfl, hbefore⟩
  · exact .inl (happend hgap)
  · exact .inr ⟨hskip, hfresh, before ++ blanks, rfl, happend hbefore⟩

/-- A call that skips the gap stops in front of what is left. -/
structure Rests (v : View) (gap left : List Char) : Prop where
  blank : ∀ c ∈ left.head?, ¬isBlank c
  mark : gap = [] → v.skipMark = true → v.phase = .fresh → left.head? ≠ some byteOrderMark

theorem exists_gap (v : View) :
    ∃ gap left, gap ++ left = v.tape.text ∧ v.Skips gap ∧ v.Rests gap left := by
  have hblanks : ∀ text : List Char, IsGap (text.takeWhile isBlank) := fun _ _ =>
    List.mem_takeWhile_imp
  have hrests : ∀ text : List Char, ∀ c ∈ (text.dropWhile isBlank).head?, ¬isBlank c :=
    fun _ _ => Reading.not_class_of_head
  by_cases hmark : v.Marked
  · obtain ⟨hskip, hfresh, hhead⟩ := hmark
    obtain ⟨rest, htext⟩ := List.head?_eq_some_iff.mp hhead
    refine ⟨byteOrderMark :: rest.takeWhile isBlank, rest.dropWhile isBlank, ?_, ?_, hrests rest,
      nofun⟩
    · rw [List.cons_append, List.takeWhile_append_dropWhile, htext]
    · exact .inr ⟨hskip, hfresh, _, rfl, hblanks rest⟩
  · have htext := @List.takeWhile_append_dropWhile _ isBlank v.tape.text
    refine ⟨_, _, htext, .inl (hblanks _), hrests _, fun hnil hskip hfresh hhead => ?_⟩
    rw [hnil, List.nil_append] at htext
    exact hmark ⟨hskip, hfresh, htext ▸ hhead⟩

section Gap

variable (hstop : v.tape.stop = none) (htext : gap ++ left = v.tape.text) (hskips : v.Skips gap)
include hstop htext hskips

theorem seek_of_gap (hrests : v.Rests gap left) : v.seek = (.ok (), v.movedTo gap left) := by
  have hblanks : ∀ (taken : List Char) {blanks : List Char}, IsGap blanks →
      (v.movedTo taken (blanks ++ left)).read .start (Reading.blanks (blanks ++ left)) =
        (.ok (), v.movedTo (taken ++ blanks) left) := by
    intro taken blanks hgap
    have hstarted : (v.movedTo taken (blanks ++ left)).phase = .started := rfl
    rw [Reading.blanks_eq, Reading.takeWhile_exact hgap hrests.blank,
      Reading.dropWhile_exact hgap hrests.blank, read_of_started hstarted rfl, movedTo_movedTo]
    rfl
  rcases hskips with hgap | ⟨hskip, hfresh, blanks, rfl, hgap⟩
  · have hmark : ¬v.Marked := by
      rintro ⟨hskip, hfresh, hhead⟩
      rw [← htext] at hhead
      cases gap with
      | nil => exact hrests.mark rfl hskip hfresh hhead
      | cons c blanks =>
        obtain rfl : c = byteOrderMark := Option.some.inj hhead
        exact absurd (hgap _ List.mem_cons_self) (by decide)
    rw [View.seek, begin_of_not_marked hstop hmark, ← htext]
    exact hblanks [] hgap
  · have hmarked : v.tape.text = byteOrderMark :: (blanks ++ left) := htext.symm
    have hmark : v.Marked := ⟨hskip, hfresh, by rw [hmarked, List.head?_cons]⟩
    rw [View.seek, begin_of_marked hstop hmark hmarked]
    exact hblanks [byteOrderMark] hgap

/-- What is skipped can be taken away, as long as something is: the mark goes with it. -/
theorem next_of_skipped (hmore : gap ≠ []) : v.next = (v.movedTo gap left).next := by
  obtain ⟨blanks, last, hsplit, hblanks, hrests⟩ := (v.movedTo gap left).exists_gap
  have hgap : IsGap blanks := hblanks.resolve_right fun ⟨_, hfresh, _⟩ => nomatch hfresh
  have hwhole : gap ++ blanks ++ last = v.tape.text := by
    rw [List.append_assoc, ← htext]
    exact congrArg (gap ++ ·) hsplit
  have hstops : v.Rests (gap ++ blanks) last :=
    ⟨hrests.blank, fun hnil => absurd (List.append_eq_nil_iff.mp hnil).1 hmore⟩
  rw [View.next, View.next, seek_of_gap hstop hwhole (hskips.append hgap) hstops,
    seek_of_gap rfl hsplit hblanks hrests, movedTo_movedTo]

end Gap

/-! ## The token -/

theorem next_of_gap (hstop : v.tape.stop = none) (h : v.Skips v.tape.text) :
    v.next = (.ok none, { v.movedTo v.tape.text [] with
      tokenStart := v.position.pastAll v.tape.text }) := by
  have hrests : v.Rests v.tape.text [] := ⟨nofun, fun _ _ _ => nofun⟩
  rw [View.next, seek_of_gap hstop (List.append_nil _) h hrests]
  exact scanHere_of_nil rfl

theorem next_of_text (hstop : v.tape.stop = none) (htext : gap ++ c :: rest = v.tape.text)
    (hskips : v.Skips gap) (hrests : v.Rests gap (c :: rest)) :
    let start := v.position.pastAll gap
    let reading := Reading.token v.limit c rest
    v.next = ((reading.placed start).map some,
      { v.movedTo (gap ++ reading.taken) reading.rest with tokenStart := start }) := by
  intro start reading
  have hstarted : ({ v.movedTo gap (c :: rest) with tokenStart := start } : View).phase =
      .started := rfl
  have hread := read_of_started hstarted rfl start reading
  have hscan : (v.movedTo gap (c :: rest)).scanHere =
      Prod.map (·.map fun token => some ⟨token, start⟩) id
        (View.read start reading { v.movedTo gap (c :: rest) with tokenStart := start }) :=
    scanHere_of_cons rfl
  rw [View.next, seek_of_gap hstop htext hskips hrests]
  dsimp only
  rw [hscan, hread, ← movedTo_movedTo gap (c :: rest), Reading.placed]
  cases reading.result <;> rfl

theorem skips_of_end (hstop : v.tape.stop = none) (h : v.next.1 = .ok none) :
    v.Skips v.tape.text := by
  obtain ⟨gap, left, htext, hskips, hrests⟩ := v.exists_gap
  cases left with
  | nil =>
    rw [List.append_nil] at htext
    exact htext ▸ hskips
  | cons c rest =>
    rw [next_of_text hstop htext hskips hrests] at h
    cases hresult : (Reading.token v.limit c rest).result <;>
      simp [Reading.placed, hresult, Except.mapError, Except.map] at h

end View

end StreamLexer
