import StreamLexer.Stream.Cursor
import StreamLexer.Proofs.Stream.Simulation

/-! # The signals of a stream

A reader delivers bytes, failures and moments at which the stream reports its end. How the bytes are
grouped in steps, how large the buffer is and where reads are interrupted leaves no trace: the next
byte of a source is decided by its signals alone (`Source.readByte_signals`), so two sources with
the same signals cannot be told apart by the characters, failures and positions of a cursor.
-/

set_option autoImplicit false

namespace StreamLexer

inductive Signal where
  | byte (value : UInt8)
  | failure (failure : Failure)
  | pause
deriving DecidableEq, Repr

def ReadStep.signals : ReadStep → List Signal
  | .data [] => [.pause]
  | .data (byte :: rest) => (byte :: rest).map .byte
  | .fail failure => if failure.kind = .interrupted then [] else [.failure failure]

def Reader.signals (reader : Reader) : List Signal :=
  reader.steps.flatMap ReadStep.signals

namespace Reader

variable {rest : List ReadStep} {failure : Failure}

theorem signals_cons (step : ReadStep) (rest : List ReadStep) :
    Reader.signals ⟨step :: rest⟩ = step.signals ++ Reader.signals ⟨rest⟩ :=
  List.flatMap_cons

theorem skipInterruptions_data (bytes : List UInt8) :
    skipInterruptions ⟨.data bytes :: rest⟩ = ⟨.data bytes :: rest⟩ := rfl

theorem skipInterruptions_interrupted (h : failure.kind = .interrupted) :
    skipInterruptions ⟨.fail failure :: rest⟩ = skipInterruptions ⟨rest⟩ := by
  simp [skipInterruptions, ReadStep.isInterruption, h]

theorem skipInterruptions_failure (h : failure.kind ≠ .interrupted) :
    skipInterruptions ⟨.fail failure :: rest⟩ = ⟨.fail failure :: rest⟩ := by
  simp [skipInterruptions, ReadStep.isInterruption, h]

end Reader

namespace Source

open Stateful

def signals (source : Source) : List Signal :=
  source.buffer.map .byte ++ source.reader.signals

/-- What the next read of a byte gives, by the next signal, when it leaves `next` behind. -/
def outcome (next : Source) : List Signal → EStateM.Result ReadError Source (Option UInt8)
  | [] | .pause :: _ => .ok none next
  | .byte value :: _ => .ok (some value) next
  | .failure failure :: _ => .error (.failed failure) next

section ReadByte

variable {rest : List ReadStep} {capacity : Nat} {failure : Failure}

theorem readByte_pause :
    readByte ⟨⟨.data [] :: rest⟩, [], capacity⟩ = .ok none ⟨⟨rest⟩, [], capacity⟩ := by
  simp [readByte, Reader.skipInterruptions_data, Reader.read]

theorem readByte_interrupted (h : failure.kind = .interrupted) :
    readByte ⟨⟨.fail failure :: rest⟩, [], capacity⟩ = readByte ⟨⟨rest⟩, [], capacity⟩ := by
  simp [readByte, Reader.skipInterruptions_interrupted h]

theorem readByte_failure (h : failure.kind ≠ .interrupted) :
    readByte ⟨⟨.fail failure :: rest⟩, [], capacity⟩ =
      .error (.failed failure) ⟨⟨rest⟩, [], capacity⟩ := by
  simp [readByte, Reader.skipInterruptions_failure h, Reader.read]

theorem readByte_data (byte : UInt8) (bytes : List UInt8) (hcapacity : 0 < capacity) :
    ∃ next : Source, readByte ⟨⟨.data (byte :: bytes) :: rest⟩, [], capacity⟩ =
        .ok (some byte) next ∧
      next.signals = bytes.map .byte ++ Reader.signals ⟨rest⟩ ∧ next.capacity = capacity := by
  obtain ⟨room, rfl⟩ := Nat.exists_eq_add_one.mpr hcapacity
  cases hleft : bytes.drop room with
  | nil =>
    refine ⟨⟨⟨rest⟩, bytes, room + 1⟩, ?_, rfl, rfl⟩
    simp [readByte, Reader.skipInterruptions_data, Reader.read, hleft]
  | cons first left =>
    refine ⟨⟨⟨.data (first :: left) :: rest⟩, bytes.take room, room + 1⟩, ?_, ?_, rfl⟩
    · simp [readByte, Reader.skipInterruptions_data, Reader.read, hleft]
    · have hbytes : (bytes.take room).map Signal.byte ++ (first :: left).map .byte =
          bytes.map .byte := by
        rw [← List.map_append, ← hleft, List.take_append_drop]
      rw [signals, Reader.signals_cons, ReadStep.signals, ← List.append_assoc, hbytes]

end ReadByte

theorem readByte_signals {source : Source} (hcapacity : 0 < source.capacity) :
    ∃ next : Source, source.readByte = outcome next source.signals ∧
      next.signals = source.signals.tail ∧ next.capacity = source.capacity := by
  obtain ⟨⟨steps⟩, buffer, capacity⟩ := source
  cases buffer with
  | cons byte rest => exact ⟨⟨⟨steps⟩, rest, capacity⟩, rfl, rfl, rfl⟩
  | nil =>
    induction steps with
    | nil => exact ⟨⟨⟨[]⟩, [], capacity⟩, rfl, rfl, rfl⟩
    | cons step rest ih =>
      rw [signals, Reader.signals_cons]
      match step with
      | .data [] => exact ⟨⟨⟨rest⟩, [], capacity⟩, readByte_pause, rfl, rfl⟩
      | .data (byte :: bytes) => exact readByte_data byte bytes hcapacity
      | .fail failure =>
        by_cases hkind : failure.kind = .interrupted
        · rw [readByte_interrupted hkind, ReadStep.signals, if_pos hkind]
          exact ih hcapacity
        · rw [readByte_failure hkind, ReadStep.signals, if_neg hkind]
          exact ⟨⟨⟨rest⟩, [], capacity⟩, rfl, rfl, rfl⟩

/-- Both buffers have room, and the same signals are to come. -/
structure Alike (s t : Source) : Prop where
  left : 0 < s.capacity
  right : 0 < t.capacity
  signals : s.signals = t.signals

theorem simulates_readByte : Simulates Alike readByte readByte := by
  rintro s t ⟨hs, ht, hsignals⟩
  obtain ⟨s', hread, htail, hcapacity⟩ := readByte_signals hs
  obtain ⟨t', hread', htail', hcapacity'⟩ := readByte_signals ht
  have halike : Alike s' t' := ⟨by omega, by omega, by rw [htail, htail', hsignals]⟩
  rw [hread, hread', hsignals]
  match t.signals with
  | [] | .pause :: _ => exact .ok none halike
  | .byte value :: _ => exact .ok (some value) halike
  | .failure failure :: _ => exact .error _ halike

theorem simulates_readTail (offset count : Nat) :
    Simulates Alike (readTail offset count) (readTail offset count) := by
  induction count with
  | zero => exact Simulates.pure _
  | succ count ih =>
    apply Simulates.bind simulates_readByte
    intro byte
    cases byte with
    | none => exact Simulates.throw _
    | some byte => exact Simulates.bind ih fun _ => Simulates.pure _

theorem simulates_readGroup (offset : Nat) (lead : UInt8) :
    Simulates Alike (readGroup offset lead) (readGroup offset lead) := by
  simp only [readGroup]
  cases Utf8.groupLength? lead with
  | none => exact Simulates.throw _
  | some length =>
    apply Simulates.bind (simulates_readTail _ _)
    intro tail
    cases Utf8.decodeGroup lead tail with
    | ok c => exact Simulates.pure _
    | error sound => exact Simulates.throw _

theorem simulates_readChar (offset : Nat) :
    Simulates Alike (readChar offset) (readChar offset) := by
  apply Simulates.bind simulates_readByte
  intro byte
  cases byte with
  | none => exact Simulates.pure _
  | some lead => exact Simulates.bind (simulates_readGroup _ _) fun _ => Simulates.pure _

theorem alike_new {first second : Reader} (h : first.signals = second.signals) (a b : Nat) :
    Alike (new first a) (new second b) where
  left := Nat.le_max_right a 1
  right := Nat.le_max_right b 1
  signals := by simpa [Source.signals, new] using h

end Source

namespace Cursor

open Stateful

/-- The same lookahead at the same position, in front of the same signals. -/
structure Alike (c d : Cursor) : Prop where
  current : c.current = d.current
  position : c.position = d.position
  source : c.source.Alike d.source

theorem Alike.nextPosition {c d : Cursor} (h : Alike c d) : c.nextPosition = d.nextPosition := by
  simp only [Cursor.nextPosition]
  rw [h.current, h.position]

theorem simulates_advance : Simulates Alike advance advance := by
  intro c d h
  have hread := Source.simulates_readChar d.nextPosition.offset _ _ h.source
  simp only [advance]
  rw [h.nextPosition]
  generalize Source.readChar d.nextPosition.offset c.source = x at hread ⊢
  generalize Source.readChar d.nextPosition.offset d.source = y at hread ⊢
  cases hread with
  | ok current hsource => exact .ok () ⟨rfl, rfl, hsource⟩
  | error e hsource => exact .error e ⟨rfl, rfl, hsource⟩

/-- What an action does with the lookahead it finds, it does in both. -/
theorem simulates_get_bind {α : Type} {k l : Cursor → Stateful ReadError Cursor α}
    (h : ∀ c d, Alike c d → Simulates Alike (k c) (l d)) :
    Simulates Alike (get >>= k) (get >>= l) :=
  fun c d hcd => h c d hcd c d hcd

theorem simulates_take : Simulates Alike take take :=
  simulates_get_bind fun c d h => Simulates.bind simulates_advance fun _ => by
    rw [h.current]
    exact Simulates.pure _

theorem simulates_accept (expected : Char) : Simulates Alike (accept expected) (accept expected) :=
  simulates_get_bind fun c d h => by
    rw [h.current]
    split
    · exact Simulates.bind simulates_advance fun _ => Simulates.pure _
    · exact Simulates.pure _

theorem alike_new {first second : Reader} (h : first.signals = second.signals) (a b : Nat) :
    Alike (new first a) (new second b) :=
  ⟨rfl, rfl, Source.alike_new h a b⟩

end Cursor

end StreamLexer
