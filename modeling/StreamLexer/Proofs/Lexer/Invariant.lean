import StreamLexer.Proofs.Lexer.Delivery
import StreamLexer.Proofs.Scan.Invariant

/-! # What every request keeps

A request is a number of calls, and an error that `next` gives is remembered. A property of lexers
that survives one call, with the error remembered or not, therefore survives every request and
every session, and the inductions over runs are done here once. One that is about the cursor has to
survive one step of the cursor only.
-/

set_option autoImplicit false

namespace StreamLexer.Lexer

/-- A call keeps the property, also where the error it gives is remembered. -/
structure Invariant (P : Lexer → Prop) : Prop where
  call : ∀ {lexer : Lexer}, P lexer → P lexer.nextPlaced.lexer
  fail : ∀ {lexer : Lexer}, P lexer → P { lexer.nextPlaced.lexer with failed := true }

namespace Invariant

variable {P : Lexer → Prop} {lexer : Lexer}

theorem next (h : Invariant P) (hlexer : P lexer) : P lexer.next.lexer := by
  have hcall := h.call hlexer
  have hfail := h.fail hlexer
  simp only [Lexer.next, nextToken, Call.map]
  split
  · exact hlexer
  · generalize lexer.nextPlaced = call at hcall hfail
    obtain ⟨_ | _ | placed, events, last⟩ := call
    · exact hfail
    · exact hcall
    · exact hcall

theorem drain (h : Invariant P) (hlexer : P lexer) : P lexer.drain.lexer := by
  induction lexer using drain_induction with
  | ended lexer hnone =>
    rw [drain_of_none hnone]
    exact h.next hlexer
  | item lexer item hsome ih =>
    rw [drain_of_some hsome]
    exact ih (h.next hlexer)

theorem scan (h : Invariant P) (hlexer : P lexer) : P lexer.scan.lexer := by
  induction lexer using scan_induction with
  | ended lexer hend =>
    rw [scan_of_end hend]
    exact h.call hlexer
  | item lexer outcome hitem ih =>
    rw [scan_of_item hitem]
    exact ih (h.call hlexer)

theorem answer (h : Invariant P) (hlexer : P lexer) (request : Request) :
    P (lexer.answer request).lexer := by
  cases request with
  | nextToken => exact h.call hlexer
  | nextPlaced => exact h.call hlexer
  | next => exact h.next hlexer
  | count => exact h.drain hlexer
  | scan => exact h.scan hlexer
  | config => exact hlexer
  | inspect => exact hlexer

theorem after (h : Invariant P) (hlexer : P lexer) (requests : List Request) :
    P (lexer.after requests) := by
  induction requests generalizing lexer with
  | nil => exact hlexer
  | cons request rest ih => exact ih (h.answer hlexer request)

end Invariant

/-! ## The cursor of a lexer -/

section Steps

open Stateful Scan

variable {P : Cursor → Prop} {lexer : Lexer}

variable (hP : Keeps P Cursor.advance)
include hP

end Steps

end StreamLexer.Lexer
