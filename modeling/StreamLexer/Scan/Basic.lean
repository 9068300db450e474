import StreamLexer.Lexer.Error
import StreamLexer.Stream.Cursor

/-!
# Scanning

A scanner consumes characters in front of a cursor and fails with an error of the lexer. A step
that cannot be read is an error at the position that the cursor had before it. A scope is what the
scanners of one token share: where the token starts and how long a literal may be.

`run` collects the longest run of characters of a class, checking the length after each of them.
It ends because every character that it takes makes the cursor lighter.
-/

set_option autoImplicit false

namespace StreamLexer

abbrev Scan (α : Type) : Type := Stateful LexError Cursor α

namespace Scan

open Stateful Cursor

structure Scope where
  start : Position
  limit : Option Nat
deriving DecidableEq, Repr

namespace Scope

def fail {α : Type} (scope : Scope) (cause : LexError.Cause) : Scan α :=
  throw ⟨cause, scope.start⟩

def check (scope : Scope) (length : Nat) : Scan Unit :=
  match scope.limit with
  | none => pure ()
  | some limit => if limit < length then scope.fail (.literalTooLong limit) else pure ()

end Scope

/-- A cursor action as a scanner: its failure is one of the stream, at the position before it. -/
def located {α : Type} (m : Stateful ReadError Cursor α) : Scan α := fun cursor =>
  match m cursor with
  | .ok a next => .ok a next
  | .error error next => .error ⟨.streamRead error, cursor.position⟩ next

def step : Scan Unit := located Cursor.advance

def accept (expected : Char) : Scan Bool := located (Cursor.accept expected)

/-- Consumes the lookahead as one more character of a literal that has `taken` before it. -/
def consume (scope : Scope) (taken : Nat) : Scan Unit := do
  step
  scope.check (taken + 1)

theorem after_located {α : Type} (m : Stateful ReadError Cursor α) (cursor : Cursor) :
    after (located m cursor) = after (m cursor) := by
  simp only [located]
  split <;> simp [*]

theorem shrinks_located {α : Type} {m : Stateful ReadError Cursor α} (h : Shrinks weight m) :
    Shrinks weight (located m) := fun cursor => by
  rw [after_located]
  exact h cursor

theorem shrinks_step : Shrinks weight step := shrinks_located shrinks_advance

theorem shrinks_accept (expected : Char) : Shrinks weight (accept expected) := by
  refine shrinks_located (Shrinks.bind Shrinks.get fun cursor => ?_)
  split
  · exact Shrinks.bind shrinks_advance fun _ => Shrinks.pure _
  · exact Shrinks.pure _

theorem shrinks_check (scope : Scope) (length : Nat) : Shrinks weight (scope.check length) := by
  simp only [Scope.check]
  split
  · exact Shrinks.pure _
  · split
    · exact Shrinks.throw _
    · exact Shrinks.pure _

theorem weight_step_lt {cursor : Cursor} (h : cursor.current.isSome) :
    (after (step cursor)).weight < cursor.weight := by
  rw [step, after_located]
  exact weight_advance_lt h

theorem weight_step_bind_lt {α : Type} {k : Unit → Scan α} (hk : ∀ u, Shrinks weight (k u))
    {cursor : Cursor} (h : cursor.current.isSome) :
    (after ((step >>= k) cursor)).weight < cursor.weight :=
  Shrinks.bind_lt (weight_step_lt h) hk

theorem weight_consume_lt {scope : Scope} {taken : Nat} {cursor : Cursor}
    (h : cursor.current.isSome) : (after (consume scope taken cursor)).weight < cursor.weight :=
  weight_step_bind_lt (fun _ => shrinks_check _ _) h

theorem weight_lt_of_consume_eq {scope : Scope} {taken : Nat} {cursor next : Cursor} {c : Char}
    (hcurrent : cursor.current = some c) (hconsume : consume scope taken cursor = .ok () next) :
    next.weight < cursor.weight := by
  have hlt := @weight_consume_lt scope taken cursor (by simp [hcurrent])
  rwa [hconsume] at hlt

/-- The longest run of characters of the class `p`, as part of a literal that has `taken`
characters before it. -/
def run (scope : Scope) (p : Char → Bool) (taken : Nat) : Scan (List Char) := fun cursor =>
  match _ : cursor.current with
  | none => .ok [] cursor
  | some c =>
    if p c then
      match _ : consume scope taken cursor with
      | .error error next => .error error next
      | .ok () next =>
        match run scope p (taken + 1) next with
        | .error error last => .error error last
        | .ok rest last => .ok (c :: rest) last
    else .ok [] cursor
termination_by cursor => cursor.weight
decreasing_by
  rename_i hcurrent _ hconsume
  exact weight_lt_of_consume_eq hcurrent hconsume

theorem shrinks_run (scope : Scope) (p : Char → Bool) (taken : Nat) :
    Shrinks weight (run scope p taken) := by
  intro cursor
  fun_induction run scope p taken cursor with
  | case1 => exact Nat.le_refl _
  | case2 taken cursor c hcurrent _ error next hconsume =>
    have hlt := @weight_consume_lt scope taken cursor (by simp [hcurrent])
    rw [hconsume] at hlt
    exact Nat.le_of_lt hlt
  | case3 taken cursor c hcurrent _ next hconsume error last hrun ih =>
    rw [hrun] at ih
    exact Nat.le_trans ih (Nat.le_of_lt (weight_lt_of_consume_eq hcurrent hconsume))
  | case4 taken cursor c hcurrent _ next hconsume rest last hrun ih =>
    rw [hrun] at ih
    exact Nat.le_trans ih (Nat.le_of_lt (weight_lt_of_consume_eq hcurrent hconsume))
  | case5 => exact Nat.le_refl _

theorem weight_lt_of_run_eq_error {scope : Scope} {p : Char → Bool} {taken : Nat}
    {cursor last : Cursor} {error : LexError} (h : run scope p taken cursor = .error error last) :
    last.weight < cursor.weight := by
  fun_induction run scope p taken cursor with
  | case1 => cases h
  | case2 taken cursor c hcurrent _ error next hconsume =>
    cases h
    have hlt := @weight_consume_lt scope taken cursor (by simp [hcurrent])
    rwa [hconsume] at hlt
  | case3 taken cursor c hcurrent _ next hconsume error last hrun ih =>
    cases h
    exact Nat.lt_trans (ih hrun) (weight_lt_of_consume_eq hcurrent hconsume)
  | case4 => cases h
  | case5 => cases h

theorem weight_run_lt {scope : Scope} {p : Char → Bool} {taken : Nat} {cursor : Cursor} {c : Char}
    (hcurrent : cursor.current = some c) (hp : p c) :
    (after (run scope p taken cursor)).weight < cursor.weight := by
  fun_cases run scope p taken cursor with
  | case1 hnone => simp [hnone] at hcurrent
  | case2 d hsome _ error next hconsume =>
    have hlt := @weight_consume_lt scope taken cursor (by simp [hcurrent])
    rwa [hconsume] at hlt
  | case3 d hsome _ next hconsume error last hrun =>
    have hle := shrinks_run scope p (taken + 1) next
    rw [hrun] at hle
    exact Nat.lt_of_le_of_lt hle (weight_lt_of_consume_eq hcurrent hconsume)
  | case4 d hsome _ next hconsume rest last hrun =>
    have hle := shrinks_run scope p (taken + 1) next
    rw [hrun] at hle
    exact Nat.lt_of_le_of_lt hle (weight_lt_of_consume_eq hcurrent hconsume)
  | case5 d hsome hnot =>
    rw [hcurrent] at hsome
    cases hsome
    exact absurd hp hnot

end Scan

end StreamLexer
