import Mathlib.Algebra.Group.Nat.Defs
import Mathlib.Data.List.Induction
import Mathlib.Data.Nat.Digits.Defs
import StreamLexer.Number.Decimal

/-! # Decimal digits read back

Written digits are digits, and their value is the number that was written. The digits behind a
point are those of the remainder, so around a point the digits of a number are split and no more.
-/

set_option autoImplicit false

namespace StreamLexer.Decimal

open CharClass

theorem value_append (left right : List Char) :
    value (left ++ right) = 10 ^ right.length * value left + value right := by
  change Nat.ofDigitChars 10 (left ++ right) 0 = _
  rw [Nat.ofDigitChars_append, Nat.ofDigitChars_eq_ofDigitChars_zero]
  rfl

/-- The first digit counts most. -/
theorem value_eq_ofDigits (digits : List Char) :
    value digits = Nat.ofDigits 10 (digits.reverse.map digitValue) := by
  induction digits using List.reverseRecOn with
  | nil => rfl
  | append_singleton digits c ih =>
    have hlast : value [c] = digitValue c := Nat.zero_add _
    rw [value_append, ih, hlast, List.reverse_append, List.reverse_singleton,
      List.singleton_append, List.map_cons, Nat.ofDigits_cons, Nat.add_comm]
    rfl

theorem value_digits (n : Nat) : value (digits n) = n :=
  Nat.ofDigitChars_ten_toDigits

theorem value_digitChar {n : Nat} (h : n < 10) : value [Nat.digitChar n] = n := by
  rw [← Nat.toDigits_of_lt_base h]
  exact value_digits n

theorem value_singleton_le {c : Char} (h : isDigit c) : value [c] ≤ 9 := by
  simp only [isDigit, Bool.and_eq_true, decide_eq_true_eq, Char.le_def, UInt32.le_iff_toNat_le] at h
  have hvalue : value [c] = c.toNat - 48 := Nat.zero_add _
  have hnine : c.toNat ≤ 57 := h.2
  omega

theorem value_lastDigits (places n : Nat) : value (lastDigits places n) = n % 10 ^ places := by
  induction places generalizing n with
  | zero => exact (Nat.mod_one n).symm
  | succ places ih =>
    rw [lastDigits, value_append, ih, value_digitChar (Nat.mod_lt n (by decide)), Nat.pow_succ',
      Nat.mod_mul, Nat.add_comm]
    rfl

/-- There is no leading zero. -/
theorem digits_eq_cons (n : Nat) : ∃ c word, digits n = c :: word ∧ (c = '0' → n = 0) := by
  induction n using Nat.strongRecOn with
  | ind n ih =>
    by_cases hsmall : n < 10
    · exact ⟨_, _, Nat.toDigits_of_lt_base hsmall, Nat.digitChar_eq_zero.mp⟩
    · obtain ⟨c, word, hdigits, hzero⟩ := ih (n / 10) (by omega)
      refine ⟨c, word ++ [Nat.digitChar (n % 10)], ?_, fun hc => ?_⟩
      · rw [digits, Nat.toDigits_of_base_le (by decide) (by omega), ← digits, hdigits]
        rfl
      · have hquotient := hzero hc
        omega

theorem isDigit_of_mem_digits {n : Nat} {c : Char} (h : c ∈ digits n) : isDigit c := by
  rw [isDigit_eq]
  exact Nat.isDigit_of_mem_toDigits (by decide) (by decide) h

theorem isDigit_digitChar {n : Nat} (h : n < 10) : isDigit (Nat.digitChar n) := by
  apply @isDigit_of_mem_digits n _
  rw [digits, Nat.toDigits_of_lt_base h]
  exact List.mem_cons_self

theorem isDigit_of_mem_lastDigits {places n : Nat} {c : Char} (h : c ∈ lastDigits places n) :
    isDigit c := by
  induction places generalizing n with
  | zero => cases h
  | succ places ih =>
    obtain h | h := List.mem_append.mp h
    · exact ih h
    · rw [List.mem_singleton.mp h]
      exact isDigit_digitChar (Nat.mod_lt n (by decide))

theorem value_fixed (places n : Nat) :
    value (digits (n / scale places) ++ lastDigits places n) = n := by
  have hscale : scale places = 10 ^ places := rfl
  rw [value_append, value_digits, value_lastDigits, length_lastDigits, hscale, Nat.div_add_mod]

end StreamLexer.Decimal
