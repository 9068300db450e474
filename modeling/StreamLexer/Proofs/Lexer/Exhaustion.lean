import StreamLexer.Proofs.Lexer.Invariant
import StreamLexer.Proofs.Scan.Faults

/-! # Lexers behind the end of the stream

A cursor can be advanced behind an empty lookahead and then reads on. A lexer does not do that: a
call that finds the end of the stream, or meets its failure, leaves the lookahead empty, and no
request looks at the source from there on.
-/

set_option autoImplicit false

namespace StreamLexer

namespace View

variable {α : Type} {v : View} {error : LexError}

/-- A reading that meets the failure of the stream has taken all of the text. -/
theorem text_of_read_stream {start : Position} {reading : Reading α} (htextual : reading.Textual)
    (h : (v.read start reading).1 = .error error) (hstream : error.isStreamError = true) :
    (v.read start reading).2.tape.text = [] := by
  simp only [View.read, Reading.outcome, Tape.settled_text] at h ⊢
  rw [LexError.isStreamError_eq] at hstream
  cases hmet : Reading.met v.tape.stop reading.taken reading.rest with
  | some failure =>
    simp only [Reading.met] at hmet
    split at hmet
    · rename_i hall
      exact hall.1
    · cases hmet
  | none =>
    rw [hmet] at h
    cases hresult : reading.result with
    | ok a =>
      rw [hresult] at h
      cases h
    | error fault =>
      rw [hresult] at h
      cases h
      have hcause := htextual fault hresult
      rw [Fault.located, hcause] at hstream
      cases hstream

theorem text_of_begin_stream (h : v.begin.1 = .error error)
    (hstream : error.isStreamError = true) : v.begin.2.tape.text = [] := by
  rw [View.begin] at h ⊢
  cases hphase : v.phase with
  | started =>
    rw [hphase] at h
    cases h
  | fresh =>
    rw [hphase] at h
    dsimp only at h ⊢
    cases hopening : v.opening with
    | error first =>
      dsimp only
      rw [Tape.settled_text, text_of_opening hopening]
    | ok first =>
      rw [hopening] at h
      dsimp only at h ⊢
      split at h
      · rename_i hmark
        rw [if_pos hmark]
        apply text_of_read_stream _ h hstream
        intro fault hfault
        cases hfault
      · cases h

theorem text_of_seek_stream (h : v.seek.1 = .error error) (hstream : error.isStreamError = true) :
    v.seek.2.tape.text = [] := by
  have hbegin := @text_of_begin_stream v error
  simp only [View.seek] at h ⊢
  generalize v.begin = begun at h hbegin ⊢
  obtain ⟨_ | ⟨⟩, next⟩ := begun
  · exact hbegin h hstream
  · exact text_of_read_stream (.blanks _) h hstream

theorem text_of_next_stream (h : v.next.1 = .error error) (hstream : error.isStreamError = true) :
    v.next.2.tape.text = [] := by
  have hseek := @text_of_seek_stream v error
  simp only [View.next] at h ⊢
  generalize v.seek = sought at h hseek ⊢
  obtain ⟨first | ⟨⟩, next⟩ := sought
  · cases h
    exact hseek rfl hstream
  · simp only [View.scanHere] at h ⊢
    cases htext : next.tape.text with
    | nil =>
      rw [htext] at h
      cases h
    | cons c rest =>
      rw [htext] at h
      apply text_of_read_stream (.token _ _ _) _ hstream
      · exact next.position
      · dsimp only at h ⊢
        generalize (View.read next.position (Reading.token next.limit c rest)
          { next with tokenStart := next.position }).1 = result at h ⊢
        cases result with
        | error first =>
          cases h
          rfl
        | ok token => cases h

theorem text_of_next_end (h : v.next.1 = .ok none) : v.next.2.tape.text = [] := by
  simp only [View.next] at h ⊢
  generalize v.seek = sought at h ⊢
  obtain ⟨first | ⟨⟩, next⟩ := sought
  · cases h
  · simp only [View.scanHere] at h ⊢
    cases htext : next.tape.text with
    | nil => exact htext
    | cons c rest =>
      rw [htext] at h
      dsimp only at h
      generalize (View.read next.position (Reading.token next.limit c rest)
        { next with tokenStart := next.position }).1 = result at h
      cases result <;> cases h

end View

namespace Lexer

open Stateful Scan

variable {lexer : Lexer} {error : LexError} {request : Request}

/-- The lookahead is empty, and not for want of a first call. -/
structure Over (lexer : Lexer) : Prop where
  started : lexer.phase = .started
  empty : lexer.cursor.current = none

theorem over_of_text (hstarted : lexer.phase = .started) (h : lexer.view.tape.text = []) :
    lexer.Over := by
  refine ⟨hstarted, ?_⟩
  have htext : lexer.cursor.tape.text = [] := by
    rw [← tape_of_started hstarted]
    exact h
  rw [← lexer.cursor.head?_tape, htext, List.head?_nil]

theorem text_of_over (h : lexer.Over) : lexer.view.tape.text = [] := by
  have htape : lexer.view.tape = lexer.cursor.tape := tape_of_started h.started
  rw [htape, ← List.head?_eq_none_iff, lexer.cursor.head?_tape, h.empty]

theorem over_of_end (hready : lexer.Ready) (h : lexer.nextPlaced.result = .ok none) :
    lexer.nextPlaced.lexer.Over := by
  apply over_of_text (started_nextPlaced hready)
  rw [view_nextPlaced hready]
  exact View.text_of_next_end ((result_nextPlaced hready).symm.trans h)

theorem over_of_stream (hready : lexer.Ready) (h : lexer.nextPlaced.result = .error error)
    (hstream : error.isStreamError = true) : lexer.nextPlaced.lexer.Over := by
  apply over_of_text (started_nextPlaced hready)
  rw [view_nextPlaced hready]
  exact View.text_of_next_stream ((result_nextPlaced hready).symm.trans h) hstream

theorem over_scan (hready : lexer.Ready) : lexer.scan.lexer.Over := by
  induction lexer using scan_induction with
  | ended lexer hend =>
    rw [scan_of_end hend]
    exact over_of_end hready hend
  | item lexer outcome hitem ih =>
    rw [scan_of_item hitem]
    exact ih (ready_nextPlaced hready)

/-! ## Behind the end -/

theorem Over.nextPlaced (h : lexer.Over) :
    lexer.nextPlaced =
      ⟨.ok none, [.ended lexer.position], { lexer with tokenStart := lexer.position }⟩ := by
  obtain ⟨hstarted, hempty⟩ := h
  have hblanks : skipBlanks lexer.cursor = .ok () lexer.cursor :=
    bind_of_ok (run_of_none hempty)
  have hbegin : lexer.begin = ⟨.ok (), [], lexer⟩ := by
    rw [begin, hstarted]
  have hperform : perform skipBlanks lexer = (.ok (), lexer) := by
    rw [perform, hblanks]
  have hseek : lexer.seek = ⟨.ok (), [], lexer⟩ := by
    rw [seek, hbegin]
    dsimp only
    rw [hperform]
  simp only [Lexer.nextPlaced, hseek, scanHere, hempty, List.nil_append]

theorem Over.next (h : lexer.Over) : lexer.next.result = none := by
  cases hfailed : lexer.failed with
  | true => simp [Lexer.next, hfailed]
  | false => exact next_of_end hfailed (by rw [h.nextPlaced])

/-- No request looks at the source, so the cursor stays as it is. -/
theorem invariant_over (cursor : Cursor) :
    Invariant fun lexer => lexer.Over ∧ lexer.cursor = cursor where
  call := by
    rintro lexer ⟨hover, hcursor⟩
    rw [hover.nextPlaced]
    exact ⟨⟨hover.started, hover.empty⟩, hcursor⟩
  fail := by
    rintro lexer ⟨hover, hcursor⟩
    rw [hover.nextPlaced]
    exact ⟨⟨hover.started, hover.empty⟩, hcursor⟩

theorem Over.keeps (h : lexer.Over) (request : Request) :
    (lexer.answer request).lexer.Over ∧ (lexer.answer request).lexer.cursor = lexer.cursor :=
  Invariant.answer (invariant_over lexer.cursor) (And.intro h rfl) request

/-- The answer gives no token and no error. -/
def Answer.isSpent : Answer → Bool
  | token (.ok none) | placed (.ok none) | item none | count 0 | items [] => true
  | config _ | nothing => true
  | _ => false

theorem Over.scan (h : lexer.Over) : lexer.scan.result = [] := by
  have hend : lexer.nextPlaced.result = .ok none := by rw [h.nextPlaced]
  rw [scan_of_end hend]

theorem Over.drain (h : lexer.Over) : lexer.drain.result = [] := by
  rw [drain_of_none h.next]

theorem Over.spent (h : lexer.Over) (request : Request) :
    (lexer.answer request).result.isSpent = true := by
  cases request with
  | nextToken =>
    rw [answer, Call.map, nextToken, Call.map, h.nextPlaced]
    rfl
  | nextPlaced =>
    rw [answer, Call.map, h.nextPlaced]
    rfl
  | next =>
    rw [answer, Call.map, h.next]
    rfl
  | count =>
    rw [answer, Call.map, h.drain]
    rfl
  | scan =>
    rw [answer, Call.map, h.scan]
    rfl
  | config => rfl
  | inspect => rfl

theorem Over.session (h : lexer.Over) (requests : List Request) :
    ∀ call ∈ lexer.session requests, call.result.isSpent = true ∧
      call.lexer.cursor = lexer.cursor := by
  induction requests generalizing lexer with
  | nil =>
    intro call hcall
    cases hcall
  | cons request rest ih =>
    obtain ⟨hover, hcursor⟩ := h.keeps request
    intro call hcall
    rcases List.mem_cons.mp hcall with rfl | hlater
    · exact ⟨h.spent request, hcursor⟩
    · obtain ⟨hspent, hsame⟩ := ih hover call hlater
      exact ⟨hspent, hsame.trans hcursor⟩

end Lexer

end StreamLexer
