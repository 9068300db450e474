import StreamLexer.Stream.Source
import StreamLexer.Text.Position

/-!
# Cursors

A cursor holds one character of a source in front of the rest, the lookahead, and its position. The
lookahead is empty before the first step, at the end of the stream and after a failed step; a step
then tries to read on. A failed step has consumed the old lookahead.

Consuming a lookahead makes a cursor lighter, and no step makes it heavier (`Cursor.weight`).
-/

set_option autoImplicit false

namespace StreamLexer

structure Cursor where
  source : Source
  current : Option Char
  position : Position
deriving DecidableEq, Repr

namespace Cursor

open Stateful

def new (reader : Reader) (capacity : Nat) : Cursor :=
  ⟨Source.new reader capacity, none, .start⟩

def atEnd (cursor : Cursor) : Bool :=
  cursor.current.isNone

def currentIs (cursor : Cursor) (p : Char → Bool) : Bool :=
  cursor.current.any p

def nextPosition (cursor : Cursor) : Position :=
  match cursor.current with
  | some c => cursor.position.past c
  | none => cursor.position

/-- Consumes the lookahead and reads the next one. -/
def advance : Stateful ReadError Cursor Unit := fun cursor =>
  match Source.readChar cursor.nextPosition.offset cursor.source with
  | .ok current source => .ok () ⟨source, current, cursor.nextPosition⟩
  | .error error source => .error error ⟨source, none, cursor.nextPosition⟩

def take : Stateful ReadError Cursor (Option Char) := do
  let cursor ← get
  advance
  return cursor.current

/-- Consumes the lookahead if it is `expected`, and says whether it was. -/
def accept (expected : Char) : Stateful ReadError Cursor Bool := do
  let cursor ← get
  if cursor.current = some expected then
    advance
    return true
  else
    return false

/-- What the reader still holds; bytes already in the buffer are lost. -/
def release (cursor : Cursor) : Reader :=
  cursor.source.reader

/-- The size of what is still to be read, the lookahead counted once. -/
def weight (cursor : Cursor) : Nat :=
  cursor.source.size + if cursor.current.isSome then 1 else 0

theorem source_size_le_weight (cursor : Cursor) : cursor.source.size ≤ cursor.weight :=
  Nat.le_add_right _ _

theorem weight_advance_le_size (cursor : Cursor) :
    (after cursor.advance).weight ≤ cursor.source.size := by
  have hshrinks := Source.shrinks_readChar cursor.nextPosition.offset cursor.source
  simp only [advance]
  split
  · rename_i current source hread
    rw [hread] at hshrinks
    cases current with
    | none => simpa [weight] using hshrinks
    | some c => simpa [weight, Nat.succ_le_iff] using Source.size_readChar_some hread
  · rename_i hread
    rw [hread] at hshrinks
    simpa [weight] using hshrinks

theorem shrinks_advance : Shrinks weight advance := fun cursor =>
  Nat.le_trans cursor.weight_advance_le_size cursor.source_size_le_weight

theorem weight_advance_lt {cursor : Cursor} (h : cursor.current.isSome) :
    (after cursor.advance).weight < cursor.weight := by
  apply Nat.lt_of_le_of_lt cursor.weight_advance_le_size
  simp [weight, h]

end Cursor

end StreamLexer
