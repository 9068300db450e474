import StreamLexer.Number.Binary32
import StreamLexer.Proofs.Number.Decimal

/-! # Numbers read back

A fraction that is exactly a magnitude is rounded to it, and the written digits of a finite
magnitude are read back as it, to the bit: a whole number and a number with all its 149 places are
exact, and of shorter digits only those are written that were seen to be read back.
-/

set_option autoImplicit false

namespace StreamLexer.Binary32

open Decimal

theorem log2_scaled {n k : Nat} (hlow : 2 ^ 23 ≤ n) (hhigh : n < 2 ^ 24) :
    (n * 2 ^ k).log2 = 23 + k := by
  have hpos : 0 < 2 ^ k := Nat.two_pow_pos k
  have hne : n * 2 ^ k ≠ 0 := by
    have : 0 < n * 2 ^ k := Nat.mul_pos (by omega) hpos
    omega
  rw [Nat.log2_eq_iff hne]
  constructor
  · rw [Nat.pow_add]
    exact Nat.mul_le_mul_right _ hlow
  · have hexponent : 23 + k + 1 = 24 + k := by omega
    rw [hexponent, Nat.pow_add]
    exact Nat.mul_lt_mul_of_pos_right hhigh hpos

theorem roundHalfEven_exact (n : Nat) {den : Nat} (hden : 0 < den) :
    roundHalfEven (n * den) den = n := by
  simp only [roundHalfEven]
  rw [Nat.mul_mod_left, Nat.mul_div_cancel n hden]
  simp [hden]

theorem nearest_exact {num den magnitude : Nat} (hden : 0 < den)
    (hexact : num * one = units magnitude * den) : nearest num den = magnitude := by
  unfold nearest
  dsimp only
  rw [hexact, Nat.mul_div_cancel _ hden]
  have hbit : hiddenBit = 2 ^ 23 := rfl
  have hsplit := Nat.div_add_mod magnitude hiddenBit
  have hfraction : magnitude % hiddenBit < hiddenBit := Nat.mod_lt _ (by decide)
  unfold units
  dsimp only
  generalize magnitude % hiddenBit = fraction at hsplit hfraction ⊢
  rw [hbit] at hfraction
  cases hexponent : magnitude / hiddenBit with
  | zero =>
    have hsmall : fraction.log2 < 23 := by
      by_cases hzero : fraction = 0
      · rw [hzero]
        decide
      · exact (Nat.log2_lt hzero).mpr hfraction
    have hshift : fraction.log2 - 23 = 0 := by omega
    rw [hexponent, Nat.mul_zero, Nat.zero_add] at hsplit
    rw [if_pos rfl, hshift, Nat.zero_mul, Nat.zero_add, hsplit]
    exact (congrArg (roundHalfEven _) (Nat.mul_one den)).trans (roundHalfEven_exact _ hden)
  | succ k =>
    have hpower : Nat.pow 2 k = 2 ^ k := rfl
    have hlog : ((hiddenBit + fraction) * 2 ^ k).log2 = 23 + k :=
      log2_scaled (by omega) (by omega)
    rw [if_neg (Nat.succ_ne_zero k), Nat.add_sub_cancel, hpower, hlog, Nat.add_sub_cancel_left,
      hpower, Nat.mul_assoc, Nat.mul_comm (2 ^ k) den,
      roundHalfEven_exact _ (Nat.mul_pos hden (Nat.two_pow_pos k)), ← hsplit, hexponent,
      Nat.mul_succ, Nat.mul_comm k, Nat.add_assoc]

theorem one_pos : 0 < one := Nat.two_pow_pos 149

theorem scale_pos (places : Nat) : 0 < scale places := Nat.pow_pos (by decide)

theorem one_dvd_scale : one ∣ scale 149 :=
  ⟨5 ^ 149, Nat.mul_pow 2 5 149⟩

theorem readsBack_of_neighbour {magnitude places n : Nat}
    (h : neighbour? magnitude places = some n) : nearest n (scale places) = magnitude := by
  rw [neighbour?] at h
  dsimp only at h
  split at h
  · rename_i habove
    cases h
    simp only [Bool.and_eq_true, decide_eq_true_eq] at habove
    exact habove.1
  · split at h
    · rename_i hbelow
      cases h
      exact of_decide_eq_true hbelow
    · cases h

/-- Fewer digits are not written unless no neighbour with as many is read back. -/
theorem digits_eq_fixed (magnitude : Nat) :
    ∃ places n, 0 < places ∧ digits magnitude = fixed places n ∧
      nearest n (scale places) = magnitude ∧
      ∀ fewer, 0 < fewer → fewer < places → neighbour? magnitude fewer = none := by
  simp only [digits]
  split
  · rename_i hwhole
    refine ⟨1, _, Nat.one_pos, rfl, nearest_exact (scale_pos 1) ?_, fun _ _ _ => by omega⟩
    have hunits := Nat.div_mul_cancel (Nat.dvd_of_mod_eq_zero hwhole)
    rw [Nat.mul_right_comm, hunits]
    rfl
  · split
    · rename_i places n hfound
      obtain ⟨before, p, after, hrange, hp, hbefore⟩ := List.findSome?_eq_some_iff.mp hfound
      obtain ⟨found, hneighbour, hpair⟩ := Option.map_eq_some_iff.mp hp
      cases hpair
      refine ⟨p + 1, n, Nat.succ_pos p, rfl, readsBack_of_neighbour hneighbour, ?_⟩
      intro fewer hpos hfewer
      rw [List.range_eq_range'] at hrange
      obtain ⟨k, -, rfl, htail⟩ := List.range'_eq_append_iff.mp hrange
      obtain ⟨rfl, -⟩ := List.range'_eq_cons_iff.mp htail.symm
      have hmem : fewer - 1 ∈ List.range' 0 k := List.mem_range'_1.mpr (by omega)
      have hnone := Option.map_eq_none_iff.mp (hbefore _ hmem)
      rwa [Nat.sub_add_cancel hpos] at hnone
    -- No decimal with fewer places reads back as the magnitude; with 149 of them it is exact.
    · rename_i hnone
      refine ⟨149, _, by decide, rfl, nearest_exact (scale_pos 149) ?_, ?_⟩
      · exact Nat.div_mul_cancel (Nat.dvd_mul_left_of_dvd one_dvd_scale _)
      · intro fewer hpos hfewer
        have hmem : fewer - 1 ∈ List.range 149 := List.mem_range.mpr (by omega)
        have hnone := Option.map_eq_none_iff.mp (List.findSome?_eq_none_iff.mp hnone _ hmem)
        rwa [Nat.sub_add_cancel hpos] at hnone

theorem ofFraction?_eq_some {num den : Nat} {x : Binary32} (h : ofFraction? num den = some x) :
    nearest num den < infinity ∧ x = ⟨UInt32.ofNat (nearest num den)⟩ := by
  simp only [ofFraction?] at h
  split at h
  · rename_i hfinite
    exact ⟨hfinite, (Option.some.inj h).symm⟩
  · cases h

theorem ofDecimal?_eq_none_iff {whole fraction : List Char} :
    ofDecimal? whole fraction = none ↔
      infinity ≤ nearest (value (whole ++ fraction)) (scale fraction.length) := by
  simp only [ofDecimal?, ofFraction?]
  split
  · rename_i hfinite
    simp [Nat.not_le.mpr hfinite]
  · rename_i hinfinite
    simp [Nat.le_of_not_lt hinfinite]

theorem eq_ofNat {x : Binary32} (h : x.negative = false) : x = ⟨UInt32.ofNat x.magnitude⟩ := by
  obtain ⟨bits⟩ := x
  have hsmall : bits.toNat < signBit := Nat.lt_of_not_le (of_decide_eq_false h)
  rw [magnitude, Nat.mod_eq_of_lt hsmall, UInt32.ofNat_toNat]

/-- Without the sign bit a number is its magnitude. -/
theorem unsigned_eq (x : Binary32) :
    (⟨x.bits &&& 0x7FFFFFFF⟩ : Binary32) = ⟨UInt32.ofNat x.magnitude⟩ := by
  have hsmall : x.magnitude < UInt32.size :=
    Nat.lt_trans (Nat.mod_lt _ (by decide)) (by decide : signBit < UInt32.size)
  have hmask : (0x7FFFFFFF : UInt32).toNat = 2 ^ 31 - 1 := rfl
  refine congrArg Binary32.mk (UInt32.toNat_inj.mp ?_)
  rw [UInt32.toNat_and, hmask, Nat.and_two_pow_sub_one_eq_mod]
  exact (UInt32.toNat_ofNat_of_lt hsmall).symm

theorem chars_of_isFinite {x : Binary32} (h : x.isFinite = true) :
    x.chars = (if x.negative then ['-'] else []) ++ digits x.magnitude := by
  have hnumber : x.isNaN = false := by
    have hbelow : x.magnitude < infinity := of_decide_eq_true h
    exact decide_eq_false (by omega)
  simp only [chars, hnumber, h, Bool.false_eq_true, if_false, if_true]
  cases x.negative <;> simp

section Finite

variable {magnitude : Nat} (h : magnitude < infinity)
include h

theorem toNat_ofNat : (UInt32.ofNat magnitude).toNat = magnitude := by
  have hsize : infinity < UInt32.size := by decide
  exact UInt32.toNat_ofNat_of_lt (by omega)

theorem magnitude_ofNat : (⟨UInt32.ofNat magnitude⟩ : Binary32).magnitude = magnitude := by
  have hsign : infinity < signBit := by decide
  rw [Binary32.magnitude, toNat_ofNat h, Nat.mod_eq_of_lt (by omega)]

theorem isFinite_ofNat : (⟨UInt32.ofNat magnitude⟩ : Binary32).isFinite = true := by
  rw [isFinite, magnitude_ofNat h]
  exact decide_eq_true h

theorem negative_ofNat : (⟨UInt32.ofNat magnitude⟩ : Binary32).negative = false := by
  have hsign : infinity < signBit := by decide
  rw [negative, toNat_ofNat h]
  exact decide_eq_false (by omega)

theorem chars_finite : (⟨UInt32.ofNat magnitude⟩ : Binary32).chars = digits magnitude := by
  rw [chars_of_isFinite (isFinite_ofNat h), negative_ofNat h, magnitude_ofNat h]
  rfl

theorem ofDecimal?_fixed {places n : Nat} (hnearest : nearest n (scale places) = magnitude) :
    ofDecimal? (Decimal.digits (n / scale places)) (lastDigits places n) =
      some ⟨UInt32.ofNat magnitude⟩ := by
  rw [ofDecimal?, value_fixed, length_lastDigits, ofFraction?, hnearest, if_pos h]

end Finite

/-- Digits around a point have no sign, and what is read from them is never infinite. -/
theorem finite_of_ofDecimal? {whole fraction : List Char} {x : Binary32}
    (h : ofDecimal? whole fraction = some x) : x.isFinite = true ∧ x.negative = false := by
  obtain ⟨hfinite, rfl⟩ := ofFraction?_eq_some h
  exact ⟨isFinite_ofNat hfinite, negative_ofNat hfinite⟩

end StreamLexer.Binary32
