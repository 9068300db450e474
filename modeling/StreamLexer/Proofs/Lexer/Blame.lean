import Mathlib.Control.Monad.Basic
import StreamLexer.Proofs.Lexer.Positions
import StreamLexer.Proofs.Scan.Faults

/-! # What an error points at

On a text without failures a call that fails has gone to the end of the text that its error is about
and no further, and the error stands where this text starts. So the next call goes on behind it.
-/

set_option autoImplicit false

namespace StreamLexer

open CharClass Grammar Lexer

namespace View

variable {v w : View} {error : LexError}

/-- A call in front of a text that fails: behind the gap and the characters `before` of the token
it takes the part that the error is about. -/
structure Fails (v : View) (error : LexError) (gap before part : List Char) (w : View) : Prop where
  text : gap ++ (before ++ (part ++ w.tape.text)) = v.tape.text
  tokenStart : w.tokenStart = v.position.pastAll gap
  place : error.position = w.tokenStart.pastAll before
  position : w.position = error.position.pastAll part
  inner : error.cause.isInner = true ↔ before ≠ []
  describes : error.cause.Describes part w.tape.text

theorem exists_fails (hstop : v.tape.stop = none) (h : v.next.1 = .error error) :
    ∃ gap before part, v.Fails error gap before part v.next.2 := by
  obtain ⟨gap, left, htext, hskips, hrests⟩ := v.exists_gap
  cases left with
  | nil =>
    rw [List.append_nil] at htext
    rw [next_of_gap hstop (htext ▸ hskips)] at h
    cases h
  | cons c rest =>
    have hcovers : (Reading.token v.limit c rest).Covers [] (c :: rest) :=
      Reading.Covers.token v.limit c
    have hblames := Reading.Blames.token v.limit c rest
    rw [next_of_text hstop htext hskips hrests] at h ⊢
    generalize Reading.token v.limit c rest = reading at h hcovers hblames ⊢
    obtain ⟨fault | token, taken, rest⟩ := reading
    · cases h
      obtain ⟨hinner, part, rfl, hdescribes⟩ := hblames fault rfl
      refine ⟨gap, fault.before, part, ?_, rfl, rfl, ?_, hinner, hdescribes⟩
      · rw [← htext, ← hcovers.split]
        exact congrArg (gap ++ ·) (List.append_assoc fault.before part rest).symm
      · exact (Position.pastAll_append _ _ _).trans (Position.pastAll_append _ _ _)
    · cases h

/-- The positions of a call that fails, counted from the start of the text. -/
theorem Fails.places {text former gap before part : List Char}
    (h : v.Fails error gap before part w) (hroom : text.length < Position.maxCount)
    (hformer : former ++ v.tape.text = text) (hposition : v.position = .behind former) :
    former ++ gap ++ before ++ part ++ w.tape.text = text ∧
      w.tokenStart = .behind (former ++ gap) ∧
      error.position = .behind (former ++ gap ++ before) ∧
      w.position = .behind (former ++ gap ++ before ++ part) := by
  have hgap : former ++ gap ++ (before ++ (part ++ w.tape.text)) = text := by
    rw [List.append_assoc, h.text, hformer]
  have hbefore : former ++ gap ++ before ++ (part ++ w.tape.text) = text := by
    rw [List.append_assoc, hgap]
  have hpart : former ++ gap ++ before ++ part ++ w.tape.text = text := by
    rw [List.append_assoc, hbefore]
  have hstart : w.tokenStart = .behind (former ++ gap) := by
    rw [h.tokenStart, hposition, Position.behind_pastAll hroom hgap]
  have hplace : error.position = .behind (former ++ gap ++ before) := by
    rw [h.place, hstart, Position.behind_pastAll hroom hbefore]
  refine ⟨hpart, hstart, hplace, ?_⟩
  rw [h.position, hplace, Position.behind_pastAll hroom hpart]

end View

namespace Lexer

/-- On a text an error points at the text that it is about: the call has gone to the end of it and
no further. The error stands where the token starts, or behind that for an escape, which is inside
its string. -/
theorem error_points {reader : Reader} {text : List Char}
    (h : reader.Delivers (Utf8.encode text)) (hroom : text.length < Position.maxCount)
    (config : Config) (requests : List Request) {error : LexError}
    (herror : ((new reader config).after requests).nextPlaced.result = .error error) :
    let last := ((new reader config).after requests).nextPlaced.lexer
    (∃ before part rest, before ++ part ++ rest = text ∧ error.position = .behind before ∧
        last.position = .behind (before ++ part) ∧ error.cause.Describes part rest) ∧
      (error.cause.isInner = true → compare last.tokenStart error.position = .lt) ∧
      (error.cause.isInner = false → error.position = last.tokenStart) := by
  have hexact := (invariant_exact hroom).after (exact_new h config) requests
  generalize (new reader config).after requests = lexer at herror hexact
  intro last
  obtain ⟨former, hformer, hposition⟩ := hexact.position
  obtain ⟨gap, before, part, hfails⟩ :=
    View.exists_fails hexact.stop ((result_nextPlaced hexact.ready).symm.trans herror)
  rw [← view_nextPlaced hexact.ready] at hfails
  obtain ⟨hpart, hview, hplace, hstop⟩ := hfails.places hroom hformer hposition
  have hstart : last.tokenStart = .behind (former ++ gap) := hview
  refine ⟨⟨_, part, _, hpart, hplace, hstop, hfails.describes⟩, ?_, ?_⟩
  · intro hinner
    rw [hstart, hplace]
    exact Position.compare_behind_append _ (hfails.inner.mp hinner)
  · intro houter
    have hnil : before = [] := by
      by_contra hmore
      rw [hfails.inner.mpr hmore] at houter
      cases houter
    rw [hplace, hstart, hnil, List.append_nil]

/-- An escape that stands for nothing, in a string behind a number that is out of range. -/
theorem error_points_escape :
    let text := "9999999999 \"é\\q\" y".toList
    let former := (new (.ofBytes (Utf8.encode text)) {}).after [.nextPlaced]
    let error : LexError := ⟨.invalidEscape 'q', ⟨1, 14, 14⟩⟩
    (Reader.ofBytes (Utf8.encode text)).Delivers (Utf8.encode text) ∧
      text.length < Position.maxCount ∧ former.nextPlaced.result = .error error ∧
      former.nextPlaced.lexer.tokenStart = ⟨1, 12, 11⟩ ∧
      former.nextPlaced.lexer.position = ⟨1, 16, 16⟩ ∧
      ∃ before rest, before ++ ['\\', 'q'] ++ rest = text ∧ error.position = .behind before ∧
        former.nextPlaced.lexer.position = .behind (before ++ ['\\', 'q']) := by
  intro text former error
  have hdelivers := Reader.delivers_ofBytes (Utf8.encode text)
  have hroom : text.length < Position.maxCount := by decide
  have herror : former.nextPlaced.result = .error error := by decide +kernel
  obtain ⟨⟨before, part, rest, htext, hplace, hstop, hdescribes⟩, -, -⟩ :=
    error_points hdelivers hroom {} [.nextPlaced] herror
  obtain rfl : part = ['\\', 'q'] := hdescribes
  exact ⟨hdelivers, hroom, herror, by decide +kernel, by decide +kernel, before, rest, htext,
    hplace, hstop⟩

end Lexer

end StreamLexer
