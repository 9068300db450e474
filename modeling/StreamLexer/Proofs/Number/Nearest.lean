import Mathlib.Algebra.Order.Field.Rat
import Mathlib.Algebra.Order.Ring.Abs
import Mathlib.Order.Monotone.Basic
import Mathlib.Tactic.FieldSimp
import Mathlib.Tactic.Linarith
import Mathlib.Tactic.Positivity
import Mathlib.Tactic.Ring
import StreamLexer.Proofs.Number.Binary32

/-! # The nearest magnitude

With its shift a magnitude counts multiples of a power of two, and its significand is the rounded
quotient by that power. The values of other magnitudes are multiples of it too or lie below the
least significand, so none of them is nearer to the quotient. At the end of the finite numbers this
settles which quotients are too large.
-/

set_option autoImplicit false

namespace StreamLexer.Binary32

theorem one_eq : (one : ℚ) = 2 ^ 149 := by
  exact_mod_cast (rfl : one = 2 ^ 149)

theorem cast_one_pos : (0 : ℚ) < one := by exact_mod_cast one_pos

/-! ## Multiples of a power of two -/

theorem units_subnormal {fraction : Nat} (h : fraction < hiddenBit) :
    units fraction = fraction := by
  simp [units, Nat.div_eq_of_lt h, Nat.mod_eq_of_lt h]

theorem units_normal (shift : Nat) {fraction : Nat} (h : fraction < hiddenBit) :
    units ((shift + 1) * hiddenBit + fraction) = (hiddenBit + fraction) * 2 ^ shift := by
  have hexponent : ((shift + 1) * hiddenBit + fraction) / hiddenBit = shift + 1 := by
    rw [Nat.mul_comm, Nat.mul_add_div (by decide), Nat.div_eq_of_lt h, Nat.add_zero]
  have hfraction : ((shift + 1) * hiddenBit + fraction) % hiddenBit = fraction := by
    rw [Nat.mul_comm, Nat.mul_add_mod, Nat.mod_eq_of_lt h]
  simp [units, hexponent, hfraction]

/-- The significands that go with a shift, and the one that a carry makes of the greatest. -/
structure Scaled (shift count : Nat) : Prop where
  low : shift = 0 ∨ hiddenBit ≤ count
  high : count ≤ 2 * hiddenBit

theorem exists_scaled (magnitude : Nat) : ∃ shift count, Scaled shift count ∧
    count < 2 * hiddenBit ∧ magnitude = shift * hiddenBit + count := by
  have hsplit := Nat.div_add_mod magnitude hiddenBit
  have hfraction : magnitude % hiddenBit < hiddenBit := Nat.mod_lt _ (by decide)
  cases hexponent : magnitude / hiddenBit with
  | zero =>
    refine ⟨0, magnitude % hiddenBit, ⟨.inl rfl, by omega⟩, by omega, ?_⟩
    rw [hexponent] at hsplit
    omega
  | succ shift =>
    refine ⟨shift, hiddenBit + magnitude % hiddenBit, ⟨.inr (by omega), by omega⟩, by omega, ?_⟩
    rw [hexponent, Nat.mul_succ, Nat.mul_comm] at hsplit
    omega

/-- A carry out of the significand is right by itself. -/
theorem units_scaled {shift count : Nat} (h : Scaled shift count) :
    units (shift * hiddenBit + count) = count * 2 ^ shift := by
  by_cases hlow : count < hiddenBit
  · obtain rfl : shift = 0 := h.low.resolve_right (Nat.not_le.mpr hlow)
    rw [Nat.zero_mul, Nat.zero_add, units_subnormal hlow, Nat.pow_zero, Nat.mul_one]
  · have hhigh := h.high
    by_cases hcarry : count = 2 * hiddenBit
    · have hcount := units_normal (shift + 1) (by decide : 0 < hiddenBit)
      have hmagnitude : shift * hiddenBit + count = (shift + 1 + 1) * hiddenBit + 0 := by
        rw [hcarry]
        ring
      rw [hmagnitude, hcount, hcarry]
      ring
    · have hcount := units_normal shift (by omega : count - hiddenBit < hiddenBit)
      have hmagnitude : shift * hiddenBit + count =
          (shift + 1) * hiddenBit + (count - hiddenBit) := by
        rw [Nat.succ_mul]
        omega
      rw [hmagnitude, hcount, Nat.add_sub_cancel' (Nat.le_of_not_lt hlow)]

theorem units_strictMono : StrictMono units := by
  apply strictMono_nat_of_lt_succ
  intro magnitude
  obtain ⟨shift, count, hscaled, hlast, rfl⟩ := exists_scaled magnitude
  have hnext : Scaled shift (count + 1) := ⟨hscaled.low.imp_right Nat.le_succ_of_le, hlast⟩
  rw [Nat.add_assoc, units_scaled hscaled, units_scaled hnext]
  exact Nat.mul_lt_mul_of_pos_right (Nat.lt_succ_self count) (Nat.two_pow_pos shift)

/-- From a power of two on, all values are multiples of the unit of its significands. -/
theorem dvd_units_or_lt (shift magnitude : Nat) :
    2 ^ shift ∣ units magnitude ∨ units magnitude < hiddenBit * 2 ^ shift := by
  obtain ⟨shift', count, hscaled, hlast, rfl⟩ := exists_scaled magnitude
  rw [units_scaled hscaled]
  by_cases hle : shift ≤ shift'
  · exact .inl (Nat.dvd_mul_left_of_dvd (Nat.pow_dvd_pow 2 hle) count)
  · right
    have hpower : 2 ^ shift' * 2 ≤ 2 ^ shift := by
      rw [← Nat.pow_succ]
      exact Nat.pow_le_pow_right (by decide) (by omega)
    calc
      count * 2 ^ shift' < 2 * hiddenBit * 2 ^ shift' :=
        Nat.mul_lt_mul_of_pos_right hlast (Nat.two_pow_pos _)
      _ = hiddenBit * (2 ^ shift' * 2) := by ring
      _ ≤ hiddenBit * 2 ^ shift := Nat.mul_le_mul_left _ hpower

/-! ## Rounding a quotient -/

/-- Rounding is off by half a unit at most, and by half a unit only to an even number. -/
theorem roundHalfEven_bounds (num : Nat) {den : Nat} (hden : 0 < den) :
    let n := roundHalfEven num den
    2 * num ≤ 2 * (n * den) + den ∧ 2 * (n * den) ≤ 2 * num + den ∧
      (2 * num = 2 * (n * den) + den ∨ 2 * (n * den) = 2 * num + den → n % 2 = 0) := by
  have hsplit := Nat.div_add_mod num den
  have hrest := Nat.mod_lt num hden
  rw [Nat.mul_comm] at hsplit
  simp only [roundHalfEven]
  split
  · refine ⟨by omega, by omega, ?_⟩
    omega
  · have hnext : (num / den + 1) * den = num / den * den + den := Nat.succ_mul _ _
    split
    · rcases Nat.mod_two_eq_zero_or_one (num / den) with heven | hodd
      · rw [heven, Nat.add_zero]
        refine ⟨by omega, by omega, fun _ => heven⟩
      · rw [hodd]
        refine ⟨by omega, by omega, fun _ => by omega⟩
    · refine ⟨by omega, by omega, ?_⟩
      omega

theorem abs_sub_mul (a b : ℚ) {c : ℚ} (hc : 0 < c) : |a * c - b * c| = |a - b| * c := by
  rw [← sub_mul, abs_mul, abs_of_pos hc]

theorem abs_sub_roundHalfEven (num : Nat) {den : Nat} (hden : 0 < den) :
    |(num : ℚ) / den - roundHalfEven num den| ≤ 1 / 2 ∧
      (|(num : ℚ) / den - roundHalfEven num den| = 1 / 2 → roundHalfEven num den % 2 = 0) := by
  obtain ⟨hlow, hhigh, heven⟩ := roundHalfEven_bounds num hden
  generalize roundHalfEven num den = n at hlow hhigh heven ⊢
  have hpos : (0 : ℚ) < den := by exact_mod_cast hden
  have hscale : |(num : ℚ) / den - n| = |(num : ℚ) - n * den| / den := by
    rw [eq_div_iff hpos.ne', ← abs_sub_mul _ _ hpos, div_mul_cancel₀ _ hpos.ne']
  rw [hscale]
  constructor
  · rw [div_le_iff₀ hpos, abs_le]
    have hlow : (2 : ℚ) * num ≤ 2 * (n * den) + den := by exact_mod_cast hlow
    have hhigh : (2 : ℚ) * (n * den) ≤ 2 * num + den := by exact_mod_cast hhigh
    constructor <;> linarith
  · intro htie
    rw [div_eq_iff hpos.ne'] at htie
    apply heven
    rcases abs_choice ((num : ℚ) - n * den) with habs | habs
    · left
      have : (2 : ℚ) * num = 2 * (n * den) + den := by linarith
      exact_mod_cast this
    · right
      have : (2 : ℚ) * (n * den) = 2 * num + den := by linarith
      exact_mod_cast this

/-! ## Nearest magnitudes -/

/-- Below the bound the value of no magnitude is nearer, and the value of no other is as near unless
this magnitude is even. -/
structure Nearest (bound : Nat) (r : ℚ) (magnitude : Nat) : Prop where
  below : magnitude < bound
  near : ∀ other < bound, |r - units magnitude| ≤ |r - units other|
  even : ∀ other < bound, other ≠ magnitude → |r - units magnitude| = |r - units other| →
    magnitude % 2 = 0

theorem abs_sub_le_right_iff {a b r : ℚ} (h : a < b) : |r - b| ≤ |r - a| ↔ a + b ≤ 2 * r := by
  rcases abs_cases (r - b) with ⟨hb, _⟩ | ⟨hb, _⟩ <;>
    rcases abs_cases (r - a) with ⟨ha, _⟩ | ⟨ha, _⟩ <;> rw [ha, hb] <;>
    constructor <;> intro <;> linarith

theorem abs_sub_le_left_iff {a b r : ℚ} (h : a < b) : |r - a| ≤ |r - b| ↔ 2 * r ≤ a + b := by
  have hmirrored : |-r - -a| ≤ |-r - -b| ↔ -b + -a ≤ 2 * -r :=
    abs_sub_le_right_iff (neg_lt_neg h)
  rw [neg_sub_neg, neg_sub_neg, abs_sub_comm a, abs_sub_comm b] at hmirrored
  rw [hmirrored]
  constructor <;> intro <;> linarith

/-- A greater number is not rounded to a smaller one. -/
theorem Nearest.mono {bound m n : Nat} {r s : ℚ} (hm : Nearest bound r m) (hn : Nearest bound s n)
    (h : r ≤ s) : m ≤ n := by
  by_contra hlt
  rw [Nat.not_le] at hlt
  have hunits : (units n : ℚ) < units m := by exact_mod_cast units_strictMono hlt
  have hr := (abs_sub_le_right_iff hunits).mp (hm.near n hn.below)
  have hs := (abs_sub_le_left_iff hunits).mp (hn.near m hm.below)
  obtain rfl : r = s := by linarith
  -- Both are equally near, so they are even, and a magnitude between them is nearer.
  have htie : |r - units m| = |r - units n| :=
    le_antisymm (hm.near n hn.below) (hn.near m hm.below)
  have hmeven := hm.even n hn.below (by omega) htie
  have hneven := hn.even m hm.below (by omega) htie.symm
  have hbetween : (units n : ℚ) < units (n + 1) ∧ (units (n + 1) : ℚ) < units m := by
    constructor
    · exact_mod_cast units_strictMono (Nat.lt_succ_self n)
    · exact_mod_cast units_strictMono (by omega : n + 1 < m)
  have hnear := (abs_sub_le_right_iff hbetween.2).mp
    (hm.near (n + 1) (by have := hm.below; omega))
  linarith

theorem Nearest.eq {bound m n : Nat} {r : ℚ} (hm : Nearest bound r m) (hn : Nearest bound r n) :
    m = n :=
  Nat.le_antisymm (hm.mono hn le_rfl) (hn.mono hm le_rfl)

theorem roundHalfEven_floor (num den : Nat) :
    num / den ≤ roundHalfEven num den ∧ roundHalfEven num den ≤ num / den + 1 := by
  simp only [roundHalfEven]
  split
  · omega
  · split <;> omega

/-- Any other natural number is half a unit away at least. -/
theorem half_le_abs_sub {t : ℚ} {k j : Nat} (h : |t - k| ≤ 1 / 2) (hne : j ≠ k) :
    1 / 2 ≤ |t - j| := by
  obtain ⟨hlow, hhigh⟩ := abs_le.mp h
  rcases Nat.lt_or_gt_of_ne hne with hlt | hlt
  · have hstep : (j : ℚ) + 1 ≤ k := by exact_mod_cast hlt
    exact le_trans (by linarith) (le_abs_self _)
  · have hstep : (k : ℚ) + 1 ≤ j := by exact_mod_cast hlt
    exact le_trans (by linarith) (neg_le_abs _)

/-- The shift leaves as many digits as a significand has, or fewer if there is none. -/
theorem shift_bounds (n : Nat) :
    n / 2 ^ (n.log2 - 23) < 2 * hiddenBit ∧
      (n.log2 - 23 = 0 ∨ hiddenBit ≤ n / 2 ^ (n.log2 - 23)) := by
  have hbit : hiddenBit = 2 ^ 23 := rfl
  have hpos := Nat.two_pow_pos (n.log2 - 23)
  constructor
  · rw [Nat.div_lt_iff_lt_mul hpos, hbit, ← Nat.pow_succ', ← Nat.pow_add]
    exact Nat.lt_of_lt_of_le Nat.lt_log2_self (Nat.pow_le_pow_right (by decide) (by omega))
  · by_cases hshift : n.log2 - 23 = 0
    · exact .inl hshift
    · right
      have hlog : 23 + (n.log2 - 23) = n.log2 := by omega
      have hne : n ≠ 0 := by
        rintro rfl
        exact hshift rfl
      rw [Nat.le_div_iff_mul_le hpos, hbit, ← Nat.pow_add, hlog]
      exact Nat.log2_self_le hne

/-- The shift and the significand that are chosen for a quotient. -/
theorem nearest_scaled (num : Nat) {den : Nat} (hden : 0 < den) :
    ∃ shift count, Scaled shift count ∧ nearest num den = shift * hiddenBit + count ∧
      count = roundHalfEven (num * one) (den * 2 ^ shift) ∧
      (shift = 0 ∨ hiddenBit * (den * 2 ^ shift) ≤ num * one) := by
  obtain ⟨hhigh, hlow⟩ := shift_bounds (num * one / den)
  have hdiv := Nat.div_div_eq_div_mul (num * one) den (2 ^ ((num * one / den).log2 - 23))
  have hfloor := roundHalfEven_floor (num * one) (den * 2 ^ ((num * one / den).log2 - 23))
  rw [hdiv] at hhigh hlow
  refine ⟨_, _, ⟨?_, ?_⟩, rfl, rfl, ?_⟩
  · exact hlow.imp_right fun hle => Nat.le_trans hle hfloor.1
  · exact Nat.le_trans hfloor.2 hhigh
  · refine hlow.imp_right fun hle => ?_
    exact (Nat.le_div_iff_mul_le (Nat.mul_pos hden (Nat.two_pow_pos _))).mp hle

theorem Scaled.abs_sub_units {shift count : Nat} (h : Scaled shift count) (t : ℚ) :
    |t * 2 ^ shift - units (shift * hiddenBit + count)| = |t - count| * 2 ^ shift := by
  rw [units_scaled h, ← abs_sub_mul _ _ (by positivity)]
  push_cast
  rfl

/-- Another multiple of the unit is as near only if the significand is off by half a unit. -/
theorem Scaled.near_of_dvd {shift count other : Nat} {t : ℚ} (h : Scaled shift count)
    (hhalf : |t - count| ≤ 1 / 2) (hother : other ≠ shift * hiddenBit + count)
    (hmultiple : 2 ^ shift ∣ units other) :
    |t - count| * 2 ^ shift ≤ |t * 2 ^ shift - units other| ∧
      (|t - count| * 2 ^ shift = |t * 2 ^ shift - units other| → |t - count| = 1 / 2) := by
  have hstep : (0 : ℚ) < 2 ^ shift := by positivity
  obtain ⟨j, hj⟩ := hmultiple
  have hne : j ≠ count := by
    rintro rfl
    apply hother
    apply units_strictMono.injective
    rw [units_scaled h, hj, Nat.mul_comm]
  have hdistance : |t * 2 ^ shift - units other| = |t - j| * 2 ^ shift := by
    rw [hj, ← abs_sub_mul _ _ hstep]
    push_cast
    rw [mul_comm (j : ℚ)]
  have hfar := half_le_abs_sub hhalf hne
  rw [hdistance, mul_le_mul_iff_left₀ hstep, mul_left_inj' hstep.ne']
  exact ⟨hhalf.trans hfar, fun heq => le_antisymm hhalf (heq ▸ hfar)⟩

/-- What is no multiple of the unit lies below the least significand, so it is farther away. -/
theorem near_of_not_dvd {shift count other : Nat} {t : ℚ} (hhalf : |t - count| ≤ 1 / 2)
    (hleast : shift = 0 ∨ (hiddenBit : ℚ) ≤ t) (hmultiple : ¬2 ^ shift ∣ units other) :
    |t - count| * 2 ^ shift < |t * 2 ^ shift - units other| := by
  have hshift : shift ≠ 0 := by
    rintro rfl
    exact hmultiple (Nat.one_dvd _)
  have hclose : |t - count| ≤ t - hiddenBit := by
    rw [← abs_of_nonneg (sub_nonneg.mpr (hleast.resolve_left hshift))]
    by_cases hleastCount : hiddenBit = count
    · rw [hleastCount]
    · exact hhalf.trans (half_le_abs_sub hhalf hleastCount)
  have hbelow : (units other : ℚ) < hiddenBit * 2 ^ shift := by
    exact_mod_cast (dvd_units_or_lt shift other).resolve_left hmultiple
  calc
    |t - count| * 2 ^ shift ≤ (t - hiddenBit) * 2 ^ shift :=
      mul_le_mul_of_nonneg_right hclose (by positivity)
    _ < t * 2 ^ shift - units other := by
      rw [sub_mul]
      linarith
    _ ≤ |t * 2 ^ shift - units other| := le_abs_self _

/-- A significand that is off by half a unit at most makes the nearest magnitude. -/
theorem Scaled.near {shift count other : Nat} {t : ℚ} (h : Scaled shift count)
    (hhalf : |t - count| ≤ 1 / 2) (hleast : shift = 0 ∨ (hiddenBit : ℚ) ≤ t)
    (hother : other ≠ shift * hiddenBit + count) :
    |t * 2 ^ shift - units (shift * hiddenBit + count)| ≤ |t * 2 ^ shift - units other| ∧
      (|t * 2 ^ shift - units (shift * hiddenBit + count)| = |t * 2 ^ shift - units other| →
        |t - count| = 1 / 2) := by
  rw [h.abs_sub_units]
  by_cases hmultiple : 2 ^ shift ∣ units other
  · exact h.near_of_dvd hhalf hother hmultiple
  · have hless := near_of_not_dvd hhalf hleast hmultiple
    exact ⟨hless.le, fun heq => absurd heq hless.ne⟩

/-- The chosen magnitude is the nearest one, however many there are. -/
theorem nearest_of_lt {num den bound : Nat} (hden : 0 < den) (hbelow : nearest num den < bound) :
    Nearest bound (num * one / den) (nearest num den) := by
  obtain ⟨shift, count, hscaled, hmagnitude, hcount, hleast⟩ := nearest_scaled num hden
  obtain ⟨hhalf, heven⟩ := abs_sub_roundHalfEven (num * one)
    (Nat.mul_pos hden (Nat.two_pow_pos shift))
  rw [← hcount] at hhalf heven
  have hpos : (0 : ℚ) < (den * 2 ^ shift : Nat) := by
    exact_mod_cast Nat.mul_pos hden (Nat.two_pow_pos shift)
  have hr : (num : ℚ) * one / den =
      ((num * one : Nat) : ℚ) / (den * 2 ^ shift : Nat) * 2 ^ shift := by
    have hden : (0 : ℚ) < den := by exact_mod_cast hden
    push_cast
    field_simp
  have hleast : shift = 0 ∨
      (hiddenBit : ℚ) ≤ ((num * one : Nat) : ℚ) / (den * 2 ^ shift : Nat) := by
    refine hleast.imp_right fun hle => ?_
    rw [le_div_iff₀ hpos]
    exact_mod_cast hle
  rw [hr, hmagnitude]
  refine ⟨hmagnitude ▸ hbelow, ?_, ?_⟩
  · intro other _
    by_cases hother : other = shift * hiddenBit + count
    · rw [hother]
    · exact (hscaled.near hhalf hleast hother).1
  · intro other _ hother htie
    have hcountEven := heven ((hscaled.near hhalf hleast hother).2 htie)
    have hbit : shift * hiddenBit = 2 * (shift * 2 ^ 22) := by
      rw [Nat.mul_left_comm]
      rfl
    omega

/-! ## The end of the finite numbers -/

/-- In the middle below an even magnitude the upper one is the nearest. -/
theorem nearest_middle {magnitude : Nat} (h : (magnitude + 1) % 2 = 0) :
    Nearest (magnitude + 2) ((units magnitude + units (magnitude + 1)) / 2) (magnitude + 1) := by
  refine ⟨by omega, fun other hother => ?_, fun _ _ _ _ => h⟩
  rcases Nat.lt_succ_iff_lt_or_eq.mp hother with hless | rfl
  · have hunits : (units other : ℚ) < units (magnitude + 1) := by
      exact_mod_cast units_strictMono hless
    have hle : (units other : ℚ) ≤ units magnitude := by
      exact_mod_cast units_strictMono.monotone (Nat.le_of_lt_succ hless)
    rw [abs_sub_le_right_iff hunits]
    linarith
  · exact le_rfl

theorem units_infinity : (units infinity : ℚ) = 2 ^ 24 * 2 ^ 253 := by
  have hunits := units_normal 254 (by decide : 0 < hiddenBit)
  have hinfinity : infinity = (254 + 1) * hiddenBit + 0 := rfl
  rw [hinfinity, hunits]
  norm_num [hiddenBit]

theorem units_greatest : (units (infinity - 1) : ℚ) = (2 ^ 24 - 1) * 2 ^ 253 := by
  have hunits := units_normal 253 (by decide : hiddenBit - 1 < hiddenBit)
  have hgreatest : infinity - 1 = (253 + 1) * hiddenBit + (hiddenBit - 1) := rfl
  rw [hgreatest, hunits]
  norm_num [hiddenBit]

/-- Rounding stays finite up to the middle between the greatest number and the power of two above. -/
theorem nearest_lt_infinity_iff {num den : Nat} (hden : 0 < den) :
    nearest num den < infinity ↔ (num : ℚ) / den < 2 ^ 128 - 2 ^ 103 := by
  have hmiddle : Nearest (infinity + 1) ((units (infinity - 1) + units infinity) / 2) infinity :=
    nearest_middle (by decide)
  have hscale : (num : ℚ) * one / den = num / den * 2 ^ 149 := by
    rw [one_eq, div_mul_eq_mul_div]
  rw [units_infinity, units_greatest] at hmiddle
  constructor
  · intro hfinite
    have hnearest := nearest_of_lt hden (Nat.lt_succ_of_lt hfinite)
    by_contra hlarge
    have hle : infinity ≤ nearest num den := by
      refine hmiddle.mono hnearest ?_
      rw [hscale]
      linarith
    omega
  · intro hsmall
    have hnearest := nearest_of_lt hden (Nat.lt_succ_self (nearest num den))
    by_contra hlarge
    rw [Nat.not_lt] at hlarge
    have hpos : 0 < infinity := by decide
    have hless : (units (infinity - 1) : ℚ) < units (nearest num den) := by
      exact_mod_cast units_strictMono (by omega)
    have hfar := (abs_sub_le_right_iff hless).mp (hnearest.near (infinity - 1) (by omega))
    have hle : (units infinity : ℚ) ≤ units (nearest num den) := by
      exact_mod_cast units_strictMono.monotone hlarge
    rw [units_greatest, hscale] at hfar
    rw [units_infinity] at hle
    linarith

end StreamLexer.Binary32
