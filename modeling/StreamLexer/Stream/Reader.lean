import StreamLexer.Stream.Failure
import StreamLexer.Stream.Stateful

/-!
# Readers

A reader delivers what its steps say, one step at a time: bytes, as many as there is room for, or
one failure. A step without bytes is a moment at which the stream reports its end; when no step is
left it does so forever. No read makes a reader larger (`Reader.size`).
-/

set_option autoImplicit false

namespace StreamLexer

inductive ReadStep where
  | data (bytes : List UInt8)
  | fail (failure : Failure)
deriving DecidableEq, Repr

namespace ReadStep

def bytes : ReadStep → List UInt8
  | data bytes => bytes
  | fail _ => []

/-- A failure after which the same read is tried again. -/
def isInterruption : ReadStep → Bool
  | data _ => false
  | fail failure => failure.kind = .interrupted

end ReadStep

structure Reader where
  steps : List ReadStep
deriving DecidableEq, Repr

namespace Reader

def ofBytes (bytes : List UInt8) : Reader := ⟨[.data bytes]⟩

def read (room : Nat) : Stateful Failure Reader (List UInt8)
  | ⟨[]⟩ => .ok [] ⟨[]⟩
  | ⟨.fail failure :: rest⟩ => .error failure ⟨rest⟩
  | ⟨.data bytes :: rest⟩ =>
    match bytes.drop room with
    | [] => .ok bytes ⟨rest⟩
    | left => .ok (bytes.take room) ⟨.data left :: rest⟩

def skipInterruptions (reader : Reader) : Reader :=
  ⟨reader.steps.dropWhile ReadStep.isInterruption⟩

def remaining (reader : Reader) : List UInt8 :=
  reader.steps.flatMap ReadStep.bytes

/-- The number of bytes still to come, with one more for every step. -/
def size (reader : Reader) : Nat :=
  reader.steps.foldr (fun step rest => step.bytes.length + 1 + rest) 0

theorem size_skipInterruptions_le (reader : Reader) :
    reader.skipInterruptions.size ≤ reader.size := by
  obtain ⟨steps⟩ := reader
  induction steps with
  | nil => exact Nat.le_refl _
  | cons step rest ih =>
    simp only [skipInterruptions, size, List.dropWhile_cons, List.foldr_cons] at ih ⊢
    by_cases h : step.isInterruption
    · rw [if_pos h]
      exact Nat.le_trans ih (Nat.le_add_left _ _)
    · rw [if_neg h]
      simp

theorem size_read_ok {room : Nat} {reader next : Reader} {bytes : List UInt8}
    (h : reader.read room = .ok bytes next) : next.size + bytes.length ≤ reader.size := by
  obtain ⟨_ | ⟨_ | _, rest⟩⟩ := reader
  · cases h
    exact Nat.le_refl _
  · rename_i bytes
    have hdrop := List.length_drop (i := room) (l := bytes)
    rw [read] at h
    split at h
    · cases h
      simp only [size, ReadStep.bytes, List.foldr_cons]
      omega
    · cases h
      simp only [size, ReadStep.bytes, List.foldr_cons, List.length_take, hdrop]
      omega
  · cases h

theorem size_read_error {room : Nat} {reader next : Reader} {failure : Failure}
    (h : reader.read room = .error failure next) : next.size ≤ reader.size := by
  obtain ⟨_ | ⟨_ | _, rest⟩⟩ := reader
  · cases h
  · rw [read] at h
    split at h <;> cases h
  · cases h
    simp [size]

end Reader

end StreamLexer
