import StreamLexer.Stream.Reader
import StreamLexer.Text.Utf8

/-!
# Sources of characters

A source puts a buffer in front of a reader and decodes UTF-8. The buffer is filled by one read of
its full capacity, and only when it is empty; an interrupted read is tried again. A group of bytes
is read whole before it is decoded, and stays consumed if it encodes nothing.

Reading a character makes a source smaller, and nothing makes it larger (`Source.size`).
-/

set_option autoImplicit false

namespace StreamLexer

structure Source where
  reader : Reader
  buffer : List UInt8
  capacity : Nat
deriving DecidableEq, Repr

namespace Source

open Stateful

def new (reader : Reader) (capacity : Nat) : Source :=
  ⟨reader, [], max capacity 1⟩

def size (source : Source) : Nat :=
  source.buffer.length + source.reader.size

/-- The next byte, or nothing where the stream reports its end. -/
def readByte : Stateful ReadError Source (Option UInt8) := fun source =>
  match source.buffer with
  | byte :: rest => .ok (some byte) { source with buffer := rest }
  | [] =>
    match source.reader.skipInterruptions.read source.capacity with
    | .error failure reader => .error (.failed failure) { source with reader }
    | .ok [] reader => .ok none { source with reader }
    | .ok (byte :: rest) reader => .ok (some byte) { source with reader, buffer := rest }

/-- The `count` bytes that complete a group, whatever they are. -/
def readTail (offset : Nat) : (count : Nat) → Stateful ReadError Source (List UInt8)
  | 0 => pure []
  | count + 1 => do
    match ← readByte with
    | none => throw (.truncated offset)
    | some byte => return byte :: (← readTail offset count)

def readGroup (offset : Nat) (lead : UInt8) : Stateful ReadError Source Char := do
  match Utf8.groupLength? lead with
  | none => throw (.invalidLead lead offset)
  | some length =>
    match Utf8.decodeGroup lead (← readTail offset (length - 1)) with
    | .ok c => return c
    | .error sound => throw (.malformed sound)

/-- The next character, which stands at byte `offset` of the text, or nothing where the stream
reports its end between two characters. -/
def readChar (offset : Nat) : Stateful ReadError Source (Option Char) := do
  match ← readByte with
  | none => return none
  | some lead => return some (← readGroup offset lead)

theorem size_readByte_some {source next : Source} {byte : UInt8}
    (h : source.readByte = .ok (some byte) next) : next.size < source.size := by
  simp only [readByte] at h
  split at h
  · rename_i _ rest hbuffer
    cases h
    simp [size, hbuffer]
  · rename_i hbuffer
    have hskip := source.reader.size_skipInterruptions_le
    split at h
    · cases h
    · cases h
    · rename_i _ rest reader hread
      cases h
      have hsize := Reader.size_read_ok hread
      simp only [size, hbuffer, List.length_cons, List.length_nil] at hsize ⊢
      omega

theorem shrinks_readByte : Shrinks size readByte := by
  intro source
  simp only [readByte]
  split
  · rename_i _ rest hbuffer
    simp [size, hbuffer]
  · rename_i hbuffer
    have hskip := source.reader.size_skipInterruptions_le
    split
    · rename_i _ reader hread
      have hsize := Reader.size_read_error hread
      simp only [after_error, size, hbuffer, List.length_nil]
      omega
    · rename_i reader hread
      have hsize := Reader.size_read_ok hread
      simp only [after_ok, size, hbuffer, List.length_nil] at hsize ⊢
      omega
    · rename_i _ rest reader hread
      have hsize := Reader.size_read_ok hread
      simp only [after_ok, size, hbuffer, List.length_cons, List.length_nil] at hsize ⊢
      omega

theorem shrinks_readTail (offset count : Nat) : Shrinks size (readTail offset count) := by
  induction count with
  | zero => exact Shrinks.pure _
  | succ count ih =>
    apply Shrinks.bind shrinks_readByte
    intro byte
    cases byte with
    | none => exact Shrinks.throw _
    | some byte => exact Shrinks.bind ih fun _ => Shrinks.pure _

theorem shrinks_readGroup (offset : Nat) (lead : UInt8) : Shrinks size (readGroup offset lead) := by
  simp only [readGroup]
  split
  · exact Shrinks.throw _
  · apply Shrinks.bind (shrinks_readTail _ _)
    intro tail
    split
    · exact Shrinks.pure _
    · exact Shrinks.throw _

theorem shrinks_readChar (offset : Nat) : Shrinks size (readChar offset) := by
  apply Shrinks.bind shrinks_readByte
  intro byte
  cases byte with
  | none => exact Shrinks.pure _
  | some lead => exact Shrinks.bind (shrinks_readGroup _ _) fun _ => Shrinks.pure _

theorem size_readChar_some {offset : Nat} {source next : Source} {c : Char}
    (h : readChar offset source = .ok (some c) next) : next.size < source.size := by
  change EStateM.bind readByte _ source = _ at h
  simp only [EStateM.bind] at h
  split at h
  · rename_i byte middle hbyte
    cases byte with
    | none => cases h
    | some lead =>
      have hgroup := shrinks_readGroup offset lead middle
      change EStateM.bind (readGroup offset lead) _ middle = _ at h
      simp only [EStateM.bind] at h
      split at h
      · rename_i hread
        cases h
        rw [hread] at hgroup
        exact Nat.lt_of_le_of_lt hgroup (size_readByte_some hbyte)
      · cases h
  · cases h

end Source

end StreamLexer
