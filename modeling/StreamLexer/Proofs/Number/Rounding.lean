import StreamLexer.Proofs.Number.Nearest

/-! # Numbers as rationals

The value of a pattern is the rational that its sign, exponent and significand stand for. A decimal
is read as the finite number without a sign that is nearest to it, the even one of two, as long as
it is below the middle between the greatest finite number and the power of two above that.
-/

set_option autoImplicit false

namespace StreamLexer

namespace Decimal

/-- The number that digits around a point denote. -/
def exact (whole fraction : List Char) : ℚ :=
  value whole + value fraction / 10 ^ fraction.length

theorem exact_eq (whole fraction : List Char) :
    exact whole fraction = value (whole ++ fraction) / scale fraction.length := by
  have hscale : (scale fraction.length : ℚ) = 10 ^ fraction.length := by
    exact_mod_cast (rfl : scale fraction.length = 10 ^ fraction.length)
  have hpos : (0 : ℚ) < 10 ^ fraction.length := by positivity
  rw [exact, hscale, value_append, eq_div_iff hpos.ne', add_mul, div_mul_cancel₀ _ hpos.ne']
  push_cast
  ring

theorem exact_zero (whole : List Char) : exact whole ['0'] = value whole := by
  simp [exact, value, digitValue]

end Decimal

namespace Binary32

open Decimal

variable {q : ℚ} {x y : Binary32}

/-! ## The value of a pattern -/

/-- The exponent as it is stored; zero is that of the numbers below the least normal one. -/
def exponent (x : Binary32) : Nat := x.magnitude / hiddenBit

/-- The 23 stored bits, with the bit in front of them that only a normal number has. -/
def significand (x : Binary32) : Nat :=
  x.magnitude % hiddenBit + if x.exponent = 0 then 0 else hiddenBit

/-- The value of a finite pattern. -/
def toRat (x : Binary32) : ℚ :=
  (if x.negative then -1 else 1) * x.significand * 2 ^ ((max x.exponent 1 : Nat) - 150 : ℤ)

theorem units_magnitude (x : Binary32) :
    units x.magnitude = x.significand * 2 ^ (max x.exponent 1 - 1) := by
  have hunits : units x.magnitude = if x.exponent = 0 then x.magnitude % hiddenBit
      else (hiddenBit + x.magnitude % hiddenBit) * 2 ^ (x.exponent - 1) := rfl
  rw [hunits, significand]
  split
  · rename_i hzero
    simp [hzero]
  · rename_i hnormal
    rw [Nat.max_eq_left (Nat.pos_of_ne_zero hnormal), Nat.add_comm]

theorem toRat_eq (x : Binary32) :
    x.toRat = (if x.negative then -1 else 1) * (units x.magnitude / one) := by
  have hexponent : ((max x.exponent 1 : Nat) - 150 : ℤ) = (max x.exponent 1 - 1 : Nat) - 149 := by
    omega
  rw [toRat, hexponent, units_magnitude, one_eq, zpow_sub₀ (by norm_num), zpow_natCast]
  push_cast
  rw [mul_assoc, mul_div_assoc]
  rfl

theorem significand_mod_two (x : Binary32) : x.significand % 2 = x.magnitude % 2 := by
  have hsplit := Nat.div_add_mod x.magnitude hiddenBit
  have hbit : hiddenBit * (x.magnitude / hiddenBit) = 2 * (2 ^ 22 * (x.magnitude / hiddenBit)) :=
    Nat.mul_assoc 2 (2 ^ 22) _
  have heven : hiddenBit % 2 = 0 := rfl
  rw [significand]
  split <;> omega

theorem toRat_of_nonneg (h : x.negative = false) : x.toRat = units x.magnitude / one := by
  simp [toRat_eq, h]

theorem abs_toRat (x : Binary32) : |x.toRat| = units x.magnitude / one := by
  have hnonneg : (0 : ℚ) ≤ units x.magnitude / one := by positivity
  rw [toRat_eq]
  split <;> simp [abs_of_nonneg hnonneg]

/-! ## Rounding to a finite number -/

/-- The finite number is nearest to `q`, and if another is as near its significand is even. -/
structure Rounds (q : ℚ) (x : Binary32) : Prop where
  finite : x.isFinite = true
  near : ∀ y : Binary32, y.isFinite = true → |q - x.toRat| ≤ |q - y.toRat|
  even : ∀ y : Binary32, y.isFinite = true → y.toRat ≠ x.toRat → |q - x.toRat| = |q - y.toRat| →
    x.significand % 2 = 0

/-! Distances are compared in the unit of all magnitudes. -/

theorem abs_sub_units (q : ℚ) (magnitude : Nat) :
    |q * one - units magnitude| = |q - units magnitude / one| * one := by
  rw [← abs_sub_mul _ _ cast_one_pos, div_mul_cancel₀ _ cast_one_pos.ne']

theorem abs_sub_units_le_iff (q : ℚ) (m n : Nat) :
    |q * one - units m| ≤ |q * one - units n| ↔ |q - units m / one| ≤ |q - units n / one| := by
  rw [abs_sub_units, abs_sub_units, mul_le_mul_iff_left₀ cast_one_pos]

theorem abs_sub_units_eq_iff (q : ℚ) (m n : Nat) :
    |q * one - units m| = |q * one - units n| ↔ |q - units m / one| = |q - units n / one| := by
  rw [abs_sub_units, abs_sub_units, mul_left_inj' cast_one_pos.ne']

theorem toRat_ofNat {magnitude : Nat} (h : magnitude < infinity) :
    (⟨UInt32.ofNat magnitude⟩ : Binary32).toRat = units magnitude / one := by
  rw [toRat_of_nonneg (negative_ofNat h), magnitude_ofNat h]

theorem Rounds.nearest (h : x.Rounds q) (hx : x.negative = false) :
    Nearest infinity (q * one) x.magnitude := by
  refine ⟨of_decide_eq_true h.finite, ?_, ?_⟩
  · intro other hother
    rw [abs_sub_units_le_iff, ← toRat_of_nonneg hx, ← toRat_ofNat hother]
    exact h.near _ (isFinite_ofNat hother)
  · intro other hother hne htie
    rw [abs_sub_units_eq_iff, ← toRat_of_nonneg hx, ← toRat_ofNat hother] at htie
    rw [← significand_mod_two]
    refine h.even _ (isFinite_ofNat hother) ?_ htie
    rw [toRat_ofNat hother, toRat_of_nonneg hx]
    intro hvalue
    rw [div_left_inj' cast_one_pos.ne'] at hvalue
    exact hne (units_strictMono.injective (by exact_mod_cast hvalue))

section Sign

variable (hq : 0 ≤ q)
include hq

/-- A sign takes a number away from `q`. -/
theorem abs_sub_magnitude_le (y : Binary32) :
    |q - units y.magnitude / one| ≤ |q - y.toRat| := by
  have hfold := abs_abs_sub_abs_le q y.toRat
  rwa [abs_of_nonneg hq, abs_toRat] at hfold

/-- A number with the other sign is as near only if both are zero. -/
theorem toRat_eq_of_tie (hx : x.negative = false) (hsame : y.magnitude = x.magnitude)
    (hzero : |q - x.toRat| ≤ |q|) (htie : |q - x.toRat| = |q - y.toRat|) :
    y.toRat = x.toRat := by
  have hnonneg : 0 ≤ x.toRat := by
    rw [toRat_of_nonneg hx]
    positivity
  have habs := abs_toRat y
  rw [hsame, ← toRat_of_nonneg hx] at habs
  rcases (abs_eq hnonneg).mp habs with hvalue | hvalue
  · exact hvalue
  · rw [htie, hvalue, sub_neg_eq_add, abs_of_nonneg (add_nonneg hq hnonneg), abs_of_nonneg hq]
      at hzero
    linarith

theorem Nearest.rounds (hx : x.negative = false) (h : Nearest infinity (q * one) x.magnitude) :
    x.Rounds q := by
  have hnear : ∀ magnitude < infinity, |q - x.toRat| ≤ |q - units magnitude / one| := by
    intro magnitude hmagnitude
    rw [toRat_of_nonneg hx, ← abs_sub_units_le_iff]
    exact h.near magnitude hmagnitude
  refine ⟨decide_eq_true h.below, ?_, ?_⟩
  · intro y hy
    exact (hnear _ (of_decide_eq_true hy)).trans (abs_sub_magnitude_le hq y)
  · intro y hy hne htie
    rw [significand_mod_two]
    refine h.even y.magnitude (of_decide_eq_true hy) ?_ ?_
    · intro hsame
      have hzero := hnear 0 (by decide)
      have hunits : units 0 = 0 := rfl
      rw [hunits, Nat.cast_zero, zero_div, sub_zero] at hzero
      exact hne (toRat_eq_of_tie hq hx hsame hzero htie)
    · rw [abs_sub_units_eq_iff, ← toRat_of_nonneg hx]
      apply le_antisymm
      · exact hnear _ (of_decide_eq_true hy)
      · rw [htie]
        exact abs_sub_magnitude_le hq y

end Sign

/-- A quotient is read as the one number without a sign that it rounds to, as long as it is not too
large. -/
theorem ofFraction?_eq_some_iff {num den : Nat} (hden : 0 < den) :
    ofFraction? num den = some x ↔
      (num : ℚ) / den < 2 ^ 128 - 2 ^ 103 ∧ x.negative = false ∧ Rounds (num / den) x := by
  have hq : (0 : ℚ) ≤ num / den := by positivity
  have hscale : (num : ℚ) / den * one = num * one / den := div_mul_eq_mul_div _ _ _
  constructor
  · intro h
    obtain ⟨hfinite, rfl⟩ := ofFraction?_eq_some h
    refine ⟨(nearest_lt_infinity_iff hden).mp hfinite, negative_ofNat hfinite, ?_⟩
    apply Nearest.rounds hq (negative_ofNat hfinite)
    rw [magnitude_ofNat hfinite, hscale]
    exact nearest_of_lt hden hfinite
  · rintro ⟨hsmall, hx, hrounds⟩
    have hfinite := (nearest_lt_infinity_iff hden).mpr hsmall
    have hnearest := hrounds.nearest hx
    rw [hscale] at hnearest
    rw [ofFraction?, if_pos hfinite, (nearest_of_lt hden hfinite).eq hnearest, ← eq_ofNat hx]

/-- Digits around a point are read as the one number without a sign that they are rounded to. -/
theorem ofDecimal?_eq_some_iff {whole fraction : List Char} :
    ofDecimal? whole fraction = some x ↔
      exact whole fraction < 2 ^ 128 - 2 ^ 103 ∧ x.negative = false ∧
        x.Rounds (exact whole fraction) := by
  rw [exact_eq]
  exact ofFraction?_eq_some_iff (scale_pos fraction.length)

theorem ofDecimal?_too_large_iff {whole fraction : List Char} :
    ofDecimal? whole fraction = none ↔ 2 ^ 128 - 2 ^ 103 ≤ exact whole fraction := by
  rw [ofDecimal?_eq_none_iff, exact_eq, ← not_lt, nearest_lt_infinity_iff (scale_pos _), not_lt]

end Binary32

end StreamLexer
