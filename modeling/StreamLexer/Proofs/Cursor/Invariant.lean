import StreamLexer.Lexer.Session
import StreamLexer.Proofs.Stream.Simulation

/-! # What every step of a cursor keeps

The only thing that an action on a stream does is to read bytes, one after the other, and the only
thing that a request to a cursor does is to advance it once or not at all. So a property that one
read of a byte keeps is kept by every step of a cursor, and one that a step keeps is kept by all
requests, whether they fail or not.
-/

set_option autoImplicit false

namespace StreamLexer

namespace Stateful

variable {ε σ α β : Type}

/-- The property outlives the action, also where the action fails. -/
def Keeps (P : σ → Prop) (m : Stateful ε σ α) : Prop :=
  ∀ s, P s → P (after (m s))

namespace Keeps

variable {P : σ → Prop} {s t : σ}

theorem of_ok {m : Stateful ε σ α} {a : α} (hm : Keeps P m) (hs : P s) (hrun : m s = .ok a t) :
    P t := by
  have hafter := hm s hs
  rwa [hrun] at hafter

theorem of_error {m : Stateful ε σ α} {e : ε} (hm : Keeps P m) (hs : P s)
    (hrun : m s = .error e t) : P t := by
  have hafter := hm s hs
  rwa [hrun] at hafter

theorem pure (a : α) : Keeps P (Pure.pure a : Stateful ε σ α) :=
  fun _ h => h

theorem throw (e : ε) : Keeps P (MonadExcept.throw e : Stateful ε σ α) :=
  fun _ h => h

theorem bind {m : Stateful ε σ α} {k : α → Stateful ε σ β} (hm : Keeps P m)
    (hk : ∀ a, Keeps P (k a)) : Keeps P (m >>= k) := by
  intro s hs
  cases hrun : m s with
  | ok a t =>
    rw [bind_of_ok hrun]
    exact hk a t (hm.of_ok hs hrun)
  | error e t =>
    rw [bind_of_error hrun]
    exact hm.of_error hs hrun

end Keeps

end Stateful

namespace Source

open Stateful

section

variable {P : Source → Prop} (hP : Keeps P readByte)
include hP

theorem keeps_readTail (offset count : Nat) : Keeps P (readTail offset count) := by
  induction count with
  | zero => exact Keeps.pure _
  | succ count ih =>
    apply Keeps.bind hP
    intro byte
    cases byte with
    | none => exact Keeps.throw _
    | some byte => exact Keeps.bind ih fun _ => Keeps.pure _

theorem keeps_readGroup (offset : Nat) (lead : UInt8) : Keeps P (readGroup offset lead) := by
  simp only [readGroup]
  split
  · exact Keeps.throw _
  · apply Keeps.bind (keeps_readTail hP _ _)
    intro tail
    split
    · exact Keeps.pure _
    · exact Keeps.throw _

theorem keeps_readChar (offset : Nat) : Keeps P (readChar offset) := by
  apply Keeps.bind hP
  intro byte
  cases byte with
  | none => exact Keeps.pure _
  | some lead => exact Keeps.bind (keeps_readGroup hP _ _) fun _ => Keeps.pure _

end

end Source

namespace Cursor

open Stateful

variable {P : Cursor → Prop} {cursor : Cursor} {request : Request}

theorem advance_of_read {current : Option Char} {source : Source}
    (h : Source.readChar cursor.nextPosition.offset cursor.source = .ok current source) :
    cursor.advance = .ok () ⟨source, current, cursor.nextPosition⟩ := by
  rw [advance, h]

theorem keeps_advance {Q : Source → Prop} (hQ : Keeps Q Source.readByte) :
    Keeps (fun cursor => Q cursor.source) advance := by
  intro cursor hcursor
  have hafter := Source.keeps_readChar hQ cursor.nextPosition.offset cursor.source hcursor
  simp only [advance]
  split <;> simpa [*] using hafter

/-! ## Requests as steps -/

theorem accept_of_current {c : Char} (h : cursor.current = some c) :
    accept c cursor = (do advance; return true : Stateful ReadError Cursor Bool) cursor := by
  change (if cursor.current = some c then _ else _ : Stateful ReadError Cursor Bool) cursor = _
  rw [if_pos h]

theorem accept_of_not_current {c : Char} (h : cursor.current ≠ some c) :
    accept c cursor = .ok false cursor := by
  change (if cursor.current = some c then _ else _ : Stateful ReadError Cursor Bool) cursor = _
  rw [if_neg h]
  rfl

/-- The request advances the cursor. One for a certain character does so in front of it only. -/
def Request.Steps (cursor : Cursor) : Request → Prop
  | advance | take => True
  | accept expected => cursor.current = some expected
  | currentIs _ => False

theorem answer_of_steps (h : request.Steps cursor) :
    ∃ reply, answer request cursor = (Cursor.advance >>= fun _ => pure reply) cursor := by
  cases request with
  | advance => exact ⟨.done, rfl⟩
  | take =>
    have htake : take cursor = (Cursor.advance >>= fun _ => pure cursor.current) cursor := rfl
    exact ⟨.taken cursor.current, (bind_congr_at _ htake).trans (by rw [bind_assoc]; rfl)⟩
  | accept expected =>
    have haccept := accept_of_current h
    exact ⟨.flag true, (bind_congr_at _ haccept).trans (by rw [bind_assoc]; rfl)⟩
  | currentIs p => exact h.elim

theorem answer_of_not_steps (h : ¬request.Steps cursor) :
    ∃ reply, answer request cursor = .ok reply cursor := by
  cases request with
  | advance | take => exact absurd trivial h
  | accept expected => exact ⟨.flag false, bind_of_ok (accept_of_not_current h)⟩
  | currentIs p => exact ⟨.flag (cursor.currentIs p), rfl⟩

theorem keeps_answer (hP : Keeps P advance) (request : Request) : Keeps P (answer request) := by
  intro cursor hcursor
  by_cases hsteps : request.Steps cursor
  · obtain ⟨reply, hanswer⟩ := answer_of_steps hsteps
    rw [hanswer]
    exact Keeps.bind hP (fun _ => Keeps.pure reply) cursor hcursor
  · obtain ⟨reply, hanswer⟩ := answer_of_not_steps hsteps
    rw [hanswer]
    exact hcursor

/-- The cursor that a session leaves behind. -/
def after (cursor : Cursor) : List Request → Cursor
  | [] => cursor
  | request :: rest => after (Stateful.after (answer request cursor)) rest

theorem keeps_after (hP : Keeps P advance) (hcursor : P cursor) (requests : List Request) :
    P (cursor.after requests) := by
  induction requests generalizing cursor with
  | nil => exact hcursor
  | cons request rest ih => exact ih (keeps_answer hP request cursor hcursor)

end Cursor

end StreamLexer
