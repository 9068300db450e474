import StreamLexer.Proofs.Stream.Decoding

/-! # What a failed reading loses

A reading that fails takes something out of the stream all the same. `Signal.Loss` says what, by
the reason of the failure and in terms of the bytes alone, and `Signal.decodes_error_iff` that it is
this and nothing else.
-/

set_option autoImplicit false

namespace StreamLexer

namespace Utf8

/-- A group of this length, of more than one byte, is announced by its lead. -/
def Announces (lead : UInt8) (length : Nat) : Prop :=
  length = 2 ∧ Within 0xC0 0xDF lead ∨ length = 3 ∧ Within 0xE0 0xEF lead ∨
    length = 4 ∧ Within 0xF0 0xF7 lead

/-- The bytes begin a group that is not complete yet. -/
inductive Begun : List UInt8 → Prop where
  | intro {lead : UInt8} {tail : List UInt8} {length : Nat} (hlead : Announces lead length)
      (hshort : tail.length + 1 < length) : Begun (lead :: tail)

theorem announces_iff {lead : UInt8} {length : Nat} :
    Announces lead length ↔ groupLength? lead = some length ∧ 1 < length := by
  constructor
  · intro h
    simp only [Announces, Within] at h
    rw [groupLength?]
    rcases h with ⟨rfl, h⟩ | ⟨rfl, h⟩ | ⟨rfl, h⟩
    all_goals grind
  · rintro ⟨hlength, hlong⟩
    have hcases := groupLength?_cases hlength
    simp only [Announces, Within] at hcases ⊢
    omega

theorem groupLength?_eq_none_iff {lead : UInt8} :
    groupLength? lead = none ↔ Within 0x80 0xBF lead ∨ Within 0xF8 0xFF lead := by
  have hbyte := lead.toNat_lt
  simp only [groupLength?, Within]
  grind

/-- A group that is not decoded is ill-formed, and has more than one byte. -/
theorem illFormed_of_decodeGroup {lead : UInt8} {tail : List UInt8} {sound : Nat}
    (hlength : groupLength? lead = some (tail.length + 1))
    (hdecode : decodeGroup lead tail = .error sound) :
    Announces lead (tail.length + 1) ∧ ¬Group (lead :: tail) := by
  constructor
  · refine announces_iff.mpr ⟨hlength, ?_⟩
    cases tail with
    | nil =>
      obtain ⟨-, hlead⟩ | h := groupLength?_cases hlength
      · rw [decodeGroup, if_pos (Nat.lt_succ_of_le hlead.2)] at hdecode
        cases hdecode
      · simp at h
    | cons second tail => simp
  · rw [group_iff]
    rintro ⟨c, hc⟩
    rw [(decodeGroup_eq_ok_iff hlength).mpr hc] at hdecode
    cases hdecode

end Utf8

namespace Signal

/-- What a reading at `offset` that fails for this reason takes from the signals in front of
`rest`. -/
inductive Loss (offset : Nat) (rest : List Signal) : ReadError → List Signal → Prop where
  | lead {lead : UInt8} (hlead : Utf8.Within 0x80 0xBF lead ∨ Utf8.Within 0xF8 0xFF lead) :
      Loss offset rest (.invalidLead lead offset) [.byte lead]
  | group {lead : UInt8} {tail : List UInt8} {sound : Nat}
      (hlead : Utf8.Announces lead (tail.length + 1)) (hgroup : ¬Utf8.Group (lead :: tail))
      (hsound : Utf8.decodeGroup lead tail = .error sound) :
      Loss offset rest (.malformed sound) ((lead :: tail).map .byte)
  | paused {bytes : List UInt8} (hbegun : Utf8.Begun bytes) :
      Loss offset rest (.truncated offset) (bytes.map .byte ++ [.pause])
  | ended {bytes : List UInt8} (hbegun : Utf8.Begun bytes) (hrest : rest = []) :
      Loss offset rest (.truncated offset) (bytes.map .byte)
  | failed {bytes : List UInt8} (cause : Failure) (hbegun : bytes = [] ∨ Utf8.Begun bytes) :
      Loss offset rest (.failed cause) (bytes.map .byte ++ [.failure cause])

variable {offset : Nat} {signals rest gone : List Signal} {error : ReadError}

theorem loss_of_decodes (h : Decodes offset signals (.error error) rest) :
    ∃ gone, signals = gone ++ rest ∧ Loss offset rest error gone := by
  cases h with
  | failed cause rest =>
    exact ⟨([] : List UInt8).map .byte ++ [.failure cause], rfl, .failed cause (.inl rfl)⟩
  | @invalidLead lead hlead rest =>
    exact ⟨[.byte lead], rfl, .lead (Utf8.groupLength?_eq_none_iff.mp hlead)⟩
  | @malformed lead tail sound hlength hdecode rest =>
    obtain ⟨hlead, hgroup⟩ := Utf8.illFormed_of_decodeGroup hlength hdecode
    exact ⟨_, rfl, .group hlead hgroup hdecode⟩
  | @cut lead tail length stop error hlength hshort hgap =>
    have hbegun : Utf8.Begun (lead :: tail) :=
      ⟨Utf8.announces_iff.mpr ⟨hlength, by omega⟩, hshort⟩
    match stop with
    | [] =>
      cases hgap
      exact ⟨_, rfl, .ended hbegun rfl⟩
    | .pause :: rest =>
      cases hgap
      exact ⟨_, (List.append_assoc _ [.pause] rest).symm, .paused hbegun⟩
    | .failure cause :: rest =>
      cases hgap
      exact ⟨_, (List.append_assoc _ [.failure cause] rest).symm, .failed cause (.inr hbegun)⟩

theorem Loss.decodes (h : Loss offset rest error gone) :
    Decodes offset (gone ++ rest) (.error error) rest := by
  cases h with
  | lead hlead => exact .invalidLead (Utf8.groupLength?_eq_none_iff.mpr hlead) rest
  | group hlead hgroup hsound => exact .malformed (Utf8.announces_iff.mp hlead).1 hsound rest
  | paused hbegun =>
    obtain ⟨hlead, hshort⟩ := hbegun
    rw [List.append_assoc]
    exact .cut (Utf8.announces_iff.mp hlead).1 hshort rfl
  | ended hbegun hrest =>
    obtain ⟨hlead, hshort⟩ := hbegun
    subst hrest
    exact .cut (Utf8.announces_iff.mp hlead).1 hshort rfl
  | failed cause hbegun =>
    rw [List.append_assoc]
    rcases hbegun with rfl | ⟨hlead, hshort⟩
    · exact .failed cause rest
    · exact .cut (Utf8.announces_iff.mp hlead).1 hshort rfl

/-! The offset in a failure is that of the reading. -/

theorem Loss.offset_invalidLead {lead : UInt8} {n : Nat}
    (h : Loss offset rest (.invalidLead lead n) gone) : n = offset := by
  cases h
  rfl

theorem Loss.offset_truncated {n : Nat} (h : Loss offset rest (.truncated n) gone) :
    n = offset := by
  cases h <;> rfl

/-- A reading fails where its loss stands in front of what it leaves, and nowhere else. -/
theorem decodes_error_iff :
    Decodes offset signals (.error error) rest ↔
      ∃ gone, signals = gone ++ rest ∧ Loss offset rest error gone := by
  constructor
  · exact loss_of_decodes
  · rintro ⟨gone, rfl, hloss⟩
    exact hloss.decodes

end Signal

end StreamLexer
