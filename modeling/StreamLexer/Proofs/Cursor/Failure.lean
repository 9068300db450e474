import StreamLexer.Proofs.Cursor.Invariant
import StreamLexer.Proofs.Lexer.Delivery
import StreamLexer.Proofs.Stream.Loss

/-! # What a cursor is after a failed step

A step that fails leaves a cursor without a lookahead, behind the old one, in front of what the
failure has not taken from the stream. Nothing else is remembered: from there on the cursor is as
good as a new one at that position (`Cursor.failure_known`).
-/

set_option autoImplicit false

namespace StreamLexer.Cursor

open Stateful

variable {cursor next : Cursor} {error : ReadError} {request : Request}

/-- The cursor `next` that a step leaves when it fails. -/
structure Failed (cursor : Cursor) (error : ReadError) (next : Cursor) : Prop where
  empty : next.current = none
  position : next.position = cursor.nextPosition
  /-- An offset in the message is that of the new position. -/
  invalidLead : ∀ lead offset, error = .invalidLead lead offset →
    error.message = "invalid UTF-8 lead byte 0x" ++ ReadError.hexByte lead ++ " at byte offset " ++
      Nat.repr next.position.offset
  truncated : ∀ offset, error = .truncated offset →
    error.message = "incomplete UTF-8 sequence at byte offset " ++ Nat.repr next.position.offset
  /-- The next step reads what comes first in the rest of the stream. -/
  resumes : ∀ c later, next.source.signals = (String.utf8EncodeChar c).map .byte ++ later →
    ∃ last, next.advance = .ok () last ∧ last.current = some c ∧ last.position = next.position ∧
      last.source.signals = later
  /-- All requests are answered as by a new cursor in front of the rest. -/
  renewed : ∀ (reader : Reader) (capacity : Nat), reader.signals = next.source.signals →
    ∀ requests, (next.session requests).map observed =
      (session ⟨.new reader capacity, none, next.position⟩ requests).map observed

theorem keeps_capacity (capacity : Nat) :
    Keeps (fun cursor => cursor.source.capacity = capacity) advance := by
  apply keeps_advance (Q := fun source => source.capacity = capacity)
  intro source hsource
  simp only [Source.readByte]
  split
  · exact hsource
  · split <;> exact hsource

theorem capacity_after (reader : Reader) (capacity : Nat) (requests : List Request) :
    ((new reader capacity).after requests).source.capacity = max capacity 1 :=
  keeps_after (keeps_capacity _) rfl requests

theorem answer_eq_error_iff :
    answer request cursor = .error error next ↔
      request.Steps cursor ∧ cursor.advance = .error error next := by
  by_cases hsteps : request.Steps cursor
  · obtain ⟨reply, hanswer⟩ := answer_of_steps hsteps
    rw [hanswer]
    cases hadvance : cursor.advance with
    | ok _ last =>
      rw [bind_of_ok hadvance]
      exact ⟨fun h => (by cases h), fun h => (by cases h.2)⟩
    | error first last =>
      rw [bind_of_error hadvance]
      exact ⟨fun h => ⟨hsteps, by cases h; rfl⟩, fun h => by cases h.2; rfl⟩
  · obtain ⟨reply, hanswer⟩ := answer_of_not_steps hsteps
    rw [hanswer]
    exact ⟨fun h => (by cases h), fun h => absurd h.1 hsteps⟩

theorem advance_eq_error_iff {rest : List Signal} (hroom : 0 < cursor.source.capacity) :
    (∃ next, cursor.advance = .error error next ∧ next.source.signals = rest) ↔
      Signal.Decodes cursor.nextPosition.offset cursor.source.signals (.error error) rest := by
  rw [← Source.readChar_iff hroom]
  constructor
  · rintro ⟨next, hadvance, hrest⟩
    exact ⟨next.source, readChar_of_advance_error hadvance, hrest⟩
  · rintro ⟨source, hread, hrest⟩
    refine ⟨⟨source, none, cursor.nextPosition⟩, ?_, hrest⟩
    rw [advance, hread]
    rfl

theorem left_of_advance_error (h : cursor.advance = .error error next) :
    next.current = none ∧ next.position = cursor.nextPosition := by
  simp only [advance] at h
  split at h
  · cases h
  · cases h
    exact ⟨rfl, rfl⟩

theorem failed_of_advance (hroom : 0 < cursor.source.capacity)
    (h : cursor.advance = .error error next) : Failed cursor error next := by
  have hnextRoom : 0 < next.source.capacity :=
    ((keeps_capacity cursor.source.capacity).of_error rfl h).symm ▸ hroom
  obtain ⟨hempty, hposition⟩ := left_of_advance_error h
  obtain ⟨gone, -, hloss⟩ := Signal.loss_of_decodes ((advance_eq_error_iff hroom).mp ⟨next, h, rfl⟩)
  rw [← hposition] at hloss
  have hstay : next.nextPosition = next.position := by
    rw [nextPosition, hempty]
  refine ⟨hempty, hposition, ?_, ?_, ?_, ?_⟩
  · rintro lead offset rfl
    rw [← hloss.offset_invalidLead]
    rfl
  · rintro offset rfl
    rw [← hloss.offset_truncated]
    rfl
  · intro c later hsignals
    obtain ⟨source, hread, hlater, -⟩ :=
      Source.readChar_encoded next.nextPosition.offset c hnextRoom hsignals
    exact ⟨_, advance_of_read hread, rfl, hstay, hlater⟩
  · intro reader capacity hsignals requests
    have halike : Alike next ⟨.new reader capacity, none, next.position⟩ :=
      ⟨hempty, rfl, hnextRoom, Nat.le_max_right _ _, by rw [← hsignals]; rfl⟩
    exact halike.observed requests

/-- A request fails where it advances the cursor and one of the losses stands in front of what is
left of the stream, and nowhere else. So what is gone from the stream is known for every state that
requests lead to, and what the cursor is then. -/
theorem failure_known (reader : Reader) (capacity : Nat) (requests : List Request)
    (request : Request) (error : ReadError) :
    let cursor := (new reader capacity).after requests
    (∀ rest, (∃ next, answer request cursor = .error error next ∧ next.source.signals = rest) ↔
        request.Steps cursor ∧ ∃ gone, cursor.source.signals = gone ++ rest ∧
          Signal.Loss cursor.nextPosition.offset rest error gone) ∧
      ∀ next, answer request cursor = .error error next → Failed cursor error next := by
  intro cursor
  have hroom : 0 < cursor.source.capacity := by
    have hcapacity : cursor.source.capacity = max capacity 1 :=
      capacity_after reader capacity requests
    have hmax := Nat.le_max_right capacity 1
    omega
  constructor
  · intro rest
    rw [← Signal.decodes_error_iff, ← advance_eq_error_iff hroom]
    simp only [answer_eq_error_iff, and_assoc, exists_and_left]
  · intro next h
    exact failed_of_advance hroom (answer_eq_error_iff.mp h).2

/-- A character, a group of three bytes that is ill-formed, a byte that starts no group, a group
that a failure breaks off, and one that an end cuts off in front of the last character. -/
def broken : Reader :=
  ⟨[.data [0x61, 0xE2, 0x28, 0x62], .data [0x80, 0xF0, 0x9F], .fail ⟨.interrupted, none⟩,
    .fail ⟨.timedOut, none⟩, .data [0xC3], .data [], .data [0x63]]⟩

/-- The first failure takes two characters with it, the last one the zero-byte read; the offset
counts the one character in front of them all. -/
theorem failure_known_broken :
    let early := (new broken 2).after [.advance]
    let late := (new broken 2).after [.advance, .take, .take, .advance]
    (∃ next, answer .take early = .error (.malformed 1) next ∧
        early.source.signals = [.byte 0xE2, .byte 0x28, .byte 0x62] ++ next.source.signals ∧
        next.position = ⟨1, 2, 1⟩ ∧ Failed early (.malformed 1) next) ∧
      ∃ next, answer .take late = .error (.truncated 1) next ∧
        late.source.signals = [.byte 0xC3, .pause] ++ next.source.signals ∧
        next.position = ⟨1, 2, 1⟩ ∧ Failed late (.truncated 1) next := by
  intro early late
  obtain ⟨-, hmalformed⟩ := failure_known broken 2 [.advance] .take (.malformed 1)
  obtain ⟨-, htruncated⟩ :=
    failure_known broken 2 [.advance, .take, .take, .advance] .take (.truncated 1)
  exact ⟨⟨_, rfl, by decide, by decide, hmalformed _ rfl⟩,
    ⟨_, rfl, by decide, by decide, htruncated _ rfl⟩⟩

end StreamLexer.Cursor
