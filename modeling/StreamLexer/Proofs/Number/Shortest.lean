import StreamLexer.Proofs.Number.Rounding

/-! # The written form of a number

The number that is read from a decimal grows with it, so a magnitude is read back from some decimal
with so many places only if it is read back from one of its two neighbours there. This is why no
decimal with fewer places than the written one is read back. A whole number is written exactly.
-/

set_option autoImplicit false

namespace StreamLexer.Binary32

open Decimal

variable {magnitude places : Nat} {x : Binary32}

theorem nearest_mono {num den num' den' : Nat} (hden : 0 < den) (hden' : 0 < den')
    (h : num * den' ≤ num' * den) : nearest num den ≤ nearest num' den' := by
  have hbelow : nearest num den < nearest num den + nearest num' den' + 1 := by omega
  have hbelow' : nearest num' den' < nearest num den + nearest num' den' + 1 := by omega
  apply (nearest_of_lt hden hbelow).mono (nearest_of_lt hden' hbelow')
  have hpos : (0 : ℚ) < den := by exact_mod_cast hden
  have hpos' : (0 : ℚ) < den' := by exact_mod_cast hden'
  have hle : (num : ℚ) * den' ≤ num' * den := by exact_mod_cast h
  rw [div_le_div_iff₀ hpos hpos', mul_right_comm, mul_right_comm _ (one : ℚ),
    mul_le_mul_iff_left₀ cast_one_pos]
  exact hle

theorem not_readsBack_of_neighbour (h : neighbour? magnitude places = none) :
    let below := units magnitude * scale places / one
    nearest below (scale places) ≠ magnitude ∧ nearest (below + 1) (scale places) ≠ magnitude := by
  simp only [neighbour?] at h
  split at h
  · cases h
  · rename_i habove
    split at h
    · cases h
    · rename_i hbelow
      simp only [decide_eq_true_eq] at hbelow
      constructor
      · exact hbelow
      · intro hread
        apply habove
        simp [hread, hbelow]

/-- If neither neighbour is read back, no decimal with so many places is. -/
theorem nearest_ne_of_neighbour (h : neighbour? magnitude places = none) (n : Nat) :
    nearest n (scale places) ≠ magnitude := by
  have hexact : nearest (units magnitude) one = magnitude := nearest_exact one_pos rfl
  have hscale := scale_pos places
  obtain ⟨hbelow, habove⟩ := not_readsBack_of_neighbour h
  generalize hfloor : units magnitude * scale places / one = below at hbelow habove
  intro hn
  rcases Nat.lt_or_ge below n with hlt | hle
  · apply habove
    apply Nat.le_antisymm
    · exact (nearest_mono hscale hscale (Nat.mul_le_mul_right _ hlt)).trans_eq hn
    · refine hexact.symm.trans_le (nearest_mono one_pos hscale ?_)
      exact (Nat.lt_mul_of_div_lt (by omega) one_pos).le
  · apply hbelow
    apply Nat.le_antisymm
    · refine (nearest_mono hscale one_pos ?_).trans_eq hexact
      exact hfloor ▸ Nat.div_mul_le_self _ _
    · exact hn.symm.trans_le (nearest_mono hscale hscale (Nat.mul_le_mul_right _ hle))

theorem nearest_of_ofDecimal? (h : magnitude < infinity) {whole fraction : List Char}
    (hread : ofDecimal? whole fraction = some ⟨UInt32.ofNat magnitude⟩) :
    nearest (value (whole ++ fraction)) (scale fraction.length) = magnitude := by
  obtain ⟨hfinite, hbits⟩ := ofFraction?_eq_some hread
  have hmagnitude := congrArg Binary32.magnitude hbits
  rw [magnitude_ofNat h, magnitude_ofNat hfinite] at hmagnitude
  exact hmagnitude.symm

/-- Of the decimals that are read as a magnitude the written one has the fewest digits behind the
point. -/
theorem digits_shortest (h : magnitude < infinity) :
    ∃ places n, 0 < places ∧ digits magnitude = fixed places n ∧
      ∀ whole fraction, fraction ≠ [] →
        ofDecimal? whole fraction = some ⟨UInt32.ofNat magnitude⟩ → places ≤ fraction.length := by
  obtain ⟨places, n, hplaces, hdigits, -, hnone⟩ := digits_eq_fixed magnitude
  refine ⟨places, n, hplaces, hdigits, ?_⟩
  intro whole fraction hsome hread
  by_contra hless
  have hpos : 0 < fraction.length := List.length_pos_iff.mpr hsome
  exact nearest_ne_of_neighbour (hnone _ hpos (Nat.lt_of_not_le hless)) _
    (nearest_of_ofDecimal? h hread)

theorem digits_whole {n : Nat} (h : units magnitude = n * one) :
    digits magnitude = Decimal.digits n ++ ['.', '0'] := by
  have hscale : scale 1 = 10 := rfl
  rw [digits, h, Nat.mul_mod_left, if_pos rfl, Nat.mul_div_cancel _ one_pos, fixed, hscale,
    Nat.mul_div_cancel _ (by decide : 0 < 10), lastDigits, lastDigits, Nat.mul_mod_left]
  rfl

/-- An integer is written as it is, with one zero behind the point. -/
theorem chars_of_int (hfinite : x.isFinite = true) {n : ℤ} (h : x.toRat = n) :
    x.chars = (if x.negative then ['-'] else []) ++ (Decimal.digits n.natAbs ++ ['.', '0']) := by
  have hunits : (units x.magnitude : ℚ) = n.natAbs * one := by
    rw [← div_eq_iff cast_one_pos.ne', ← abs_toRat, h, Nat.cast_natAbs, Int.cast_abs]
  rw [chars_of_isFinite hfinite, digits_whole (by exact_mod_cast hunits)]

end StreamLexer.Binary32
