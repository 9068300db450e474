import StreamLexer.Proofs.Stream.Encoding

/-! # The tape in front of a cursor

A tape is what can be read before the stream first reports its end or fails: a text, and the failure
that stops it if there is one. A scanner never reads past an empty lookahead, so the tape and the
position of a cursor decide all that it can find. What comes after the end is no part of the tape.
-/

set_option autoImplicit false

namespace StreamLexer

structure Tape where
  text : List Char
  stop : Option ReadError
deriving DecidableEq, Repr

namespace Tape

def ended : Tape := ⟨[], none⟩

def push (c : Char) (tape : Tape) : Tape := ⟨c :: tape.text, tape.stop⟩

/-- What is left once the lookahead has been read: a failure that was met is not met again. -/
def settled (tape : Tape) : Tape :=
  if tape.text = [] then ended else tape

@[simp] theorem settled_nil (stop : Option ReadError) : settled ⟨[], stop⟩ = ended := rfl

@[simp] theorem settled_cons (c : Char) (text : List Char) (stop : Option ReadError) :
    settled ⟨c :: text, stop⟩ = ⟨c :: text, stop⟩ := rfl

@[simp] theorem settled_text (tape : Tape) : tape.settled.text = tape.text := by
  obtain ⟨_ | ⟨c, text⟩, stop⟩ := tape <;> rfl

end Tape

/-- What the source delivers up to its first end, when its next character stands at `p`. -/
def Source.tape (p : Position) (source : Source) : Tape :=
  match _ : readChar p.offset source with
  | .error error _ => ⟨[], some error⟩
  | .ok none _ => .ended
  | .ok (some c) next => (next.tape (p.past c)).push c
termination_by source.size
decreasing_by
  rename_i hread
  exact size_readChar_some hread

namespace Source

open Stateful

theorem tape_of_error {p : Position} {source next : Source} {error : ReadError}
    (h : readChar p.offset source = .error error next) : source.tape p = ⟨[], some error⟩ := by
  rw [tape]
  split <;> simp_all

theorem tape_of_none {p : Position} {source next : Source}
    (h : readChar p.offset source = .ok none next) : source.tape p = .ended := by
  rw [tape]
  split <;> simp_all

theorem tape_of_some {p : Position} {source next : Source} {c : Char}
    (h : readChar p.offset source = .ok (some c) next) :
    source.tape p = (next.tape (p.past c)).push c := by
  rw [tape]
  split <;> simp_all

/-- The tape depends on nothing but the signals. -/
theorem Alike.tape_eq {s t : Source} (h : s.Alike t) (p : Position) : s.tape p = t.tape p := by
  have hmatch := simulates_readChar p.offset s t h
  fun_induction s.tape p generalizing t with
  | case1 p s error next hread =>
    generalize hread' : readChar p.offset t = y at hmatch
    rw [hread] at hmatch
    cases hmatch
    exact (tape_of_error hread').symm
  | case2 p s next hread =>
    generalize hread' : readChar p.offset t = y at hmatch
    rw [hread] at hmatch
    cases hmatch
    exact (tape_of_none hread').symm
  | case3 p s c next hread ih =>
    generalize hread' : readChar p.offset t = y at hmatch
    rw [hread] at hmatch
    cases hmatch with
    | ok _ hnext =>
      rw [tape_of_some hread', ih hnext (simulates_readChar _ _ _ hnext)]

theorem tape_encoded (p : Position) {text : List Char} {source : Source} {rest : List Signal}
    (hcapacity : 0 < source.capacity)
    (hsignals : source.signals = (Utf8.encode text).map .byte ++ rest)
    (hend : rest = [] ∨ ∃ later, rest = .pause :: later) : source.tape p = ⟨text, none⟩ := by
  induction text generalizing p source with
  | nil =>
    obtain ⟨next, hread⟩ := readChar_atEnd p.offset hcapacity (by rw [AtEnd, hsignals]; exact hend)
    exact tape_of_none hread
  | cons c text ih =>
    rw [Utf8.encode_cons, List.map_append, List.append_assoc] at hsignals
    obtain ⟨next, hread, hnext, hroom⟩ := readChar_encoded p.offset c hcapacity hsignals
    rw [tape_of_some hread, ih (p.past c) hroom hnext]
    rfl

theorem tape_ofBytes (p : Position) (text : List Char) (capacity : Nat) :
    (new (.ofBytes (Utf8.encode text)) capacity).tape p = ⟨text, none⟩ := by
  have hroom : 0 < (new (.ofBytes (Utf8.encode text)) capacity).capacity := Nat.le_max_right _ _
  cases hbytes : Utf8.encode text with
  | nil =>
    -- The one read delivers no bytes, which is the end of the stream by itself.
    have hsignals : (new (.ofBytes (Utf8.encode text)) capacity).signals =
        (Utf8.encode text).map .byte ++ [.pause] := by
      rw [hbytes]
      rfl
    rw [← hbytes]
    exact tape_encoded p hroom hsignals (.inr ⟨[], rfl⟩)
  | cons byte bytes =>
    have hsignals : (new (.ofBytes (Utf8.encode text)) capacity).signals =
        (Utf8.encode text).map .byte ++ [] := by
      simp [signals, new, Reader.ofBytes, Reader.signals, ReadStep.signals, hbytes]
    rw [← hbytes]
    exact tape_encoded p hroom hsignals (.inl rfl)

end Source

namespace Cursor

open Stateful

/-- What is in front of the cursor. An empty lookahead is the end. -/
def tape (cursor : Cursor) : Tape :=
  match cursor.current with
  | none => .ended
  | some c => (cursor.source.tape (cursor.position.past c)).push c

theorem head?_tape (cursor : Cursor) : cursor.tape.text.head? = cursor.current := by
  simp only [tape]
  cases cursor.current <;> rfl

theorem currentIs_of_text {cursor : Cursor} {text : List Char} (h : cursor.tape.text = text)
    (p : Char → Bool) : cursor.currentIs p = text.head?.any p := by
  rw [currentIs, ← head?_tape, h]

theorem settled_tape (cursor : Cursor) : cursor.tape.settled = cursor.tape := by
  simp only [tape]
  cases cursor.current <;> rfl

theorem tape_of_current {cursor : Cursor} {c : Char} (h : cursor.current = some c) :
    cursor.tape = (cursor.source.tape cursor.nextPosition).push c := by
  simp [tape, nextPosition, h]

theorem current_of_text {cursor : Cursor} {c : Char} {rest : List Char}
    (h : cursor.tape.text = c :: rest) : cursor.current = some c := by
  rw [← cursor.head?_tape, h, List.head?_cons]

theorem source_tape_of_text {cursor : Cursor} {c : Char} {rest : List Char}
    (h : cursor.tape.text = c :: rest) :
    cursor.source.tape cursor.nextPosition = ⟨rest, cursor.tape.stop⟩ := by
  have htape := tape_of_current (current_of_text h)
  rw [htape] at h ⊢
  obtain ⟨-, rfl⟩ := List.cons_eq_cons.mp h
  rfl

/-- How a step ends that leaves `next` behind, when this is the tape of the source before it. -/
def arrival (next : Cursor) : Tape → EStateM.Result ReadError Cursor Unit
  | ⟨[], some error⟩ => .error error next
  | _ => .ok () next

theorem advance_tape (cursor : Cursor) :
    ∃ next : Cursor, cursor.advance = arrival next (cursor.source.tape cursor.nextPosition) ∧
      next.position = cursor.nextPosition ∧
      next.tape = (cursor.source.tape cursor.nextPosition).settled := by
  simp only [advance]
  cases hread : Source.readChar cursor.nextPosition.offset cursor.source with
  | error error source =>
    rw [Source.tape_of_error hread]
    exact ⟨⟨source, none, cursor.nextPosition⟩, rfl, rfl, rfl⟩
  | ok current source =>
    refine ⟨⟨source, current, cursor.nextPosition⟩, ?_⟩
    cases current with
    | none =>
      rw [Source.tape_of_none hread]
      exact ⟨rfl, rfl, rfl⟩
    | some c =>
      rw [Source.tape_of_some hread]
      exact ⟨rfl, rfl, rfl⟩

end Cursor

end StreamLexer
