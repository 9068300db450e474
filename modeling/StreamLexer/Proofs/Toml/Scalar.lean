import StreamLexer.Proofs.Number.Decimal
import StreamLexer.Proofs.Toml.Parser
import StreamLexer.Toml.Document

/-! # Numbers and truth values up to the end of a line

Digits that reach to the end of a line are an integer: every date, time, fraction or exponent needs
a character that is neither a digit nor the line end.
-/

set_option autoImplicit false

namespace StreamLexer.Toml

open StreamLexer.Toml.Parser
open StreamLexer.CharClass (isDigit)

/-! ## Lines of digits -/

/-- Digits up to the end of a line, and any lines behind it. -/
inductive DigitLine : List Char → Prop
  | ending (rest : List Char) : DigitLine ('\n' :: rest)
  | digit {c : Char} {rest : List Char} (hc : isDigit c) (line : DigitLine rest) :
      DigitLine (c :: rest)

theorem DigitLine.append {word : List Char} (hword : ∀ c ∈ word, isDigit c) (rest : List Char) :
    DigitLine (word ++ '\n' :: rest) := by
  induction word with
  | nil => exact .ending rest
  | cons c word ih =>
    exact .digit (hword c List.mem_cons_self) (ih fun d hd => hword d (List.mem_cons_of_mem c hd))

theorem DigitLine.head?_ne {input : List Char} (line : DigitLine input) {c : Char}
    (hc : isDigit c = false) (hend : c ≠ '\n') : input.head? ≠ some c := by
  cases line with
  | ending rest => simpa using hend.symm
  | digit hd line =>
    intro h
    rw [Option.some.inj h, hc] at hd
    cases hd

/-- What the parser leaves of a line of digits is a line of digits again. -/
def KeepsLine {α : Type} (p : Parser α) : Prop :=
  ∀ ⦃input rest : List Char⦄ ⦃a : α⦄, DigitLine input → p input = some (a, rest) → DigitLine rest

def RefusesLine {α : Type} (p : Parser α) : Prop :=
  ∀ ⦃input : List Char⦄, DigitLine input → p input = none

section Closure

variable {α β : Type} {p q : Parser α} {f : α → Parser β}

theorem keepsLine_pure (a : α) : KeepsLine (pure a) := by
  intro input rest b hline h
  cases h
  exact hline

theorem KeepsLine.bind (hp : KeepsLine p) (hf : ∀ a, KeepsLine (f a)) : KeepsLine (p >>= f) := by
  intro input rest b hline h
  obtain ⟨⟨a, middle⟩, hfirst, hsecond⟩ := Option.bind_eq_some_iff.mp h
  exact hf a (hp hline hfirst) hsecond

theorem KeepsLine.discard (hp : KeepsLine p) : KeepsLine (discard p) := by
  intro input rest b hline h
  rw [discard_apply] at h
  obtain ⟨⟨a, middle⟩, hfirst, hsecond⟩ := Option.map_eq_some_iff.mp h
  cases hsecond
  exact hp hline hfirst

theorem RefusesLine.bind (hp : RefusesLine p) : RefusesLine (p >>= f) :=
  fun _ hline => bind_of_none (hp hline) f

theorem KeepsLine.refuses_bind (hp : KeepsLine p) (hf : ∀ a, RefusesLine (f a)) :
    RefusesLine (p >>= f) := by
  intro input hline
  cases hfirst : p input with
  | none => exact bind_of_none hfirst f
  | some taken =>
    rw [bind_of_some hfirst]
    exact hf taken.1 (hp hline hfirst)

theorem RefusesLine.orElse (hp : RefusesLine p) (hq : RefusesLine q) : RefusesLine (p <|> q) := by
  intro input hline
  rw [orElse_apply, hp hline, hq hline]
  rfl

theorem RefusesLine.taken (hp : RefusesLine p) : RefusesLine (taken p) :=
  fun _ hline => taken_of_none (hp hline)

end Closure

/-! ## Dates and times -/

theorem keepsLine_digit : KeepsLine (satisfy isDigit) := by
  intro input rest a hline h
  cases hline with
  | ending rest => cases h
  | digit hc hline =>
    rw [satisfy_of_pos hc] at h
    cases h
    exact hline

theorem refusesLine_char {c : Char} (hc : isDigit c = false) (hend : c ≠ '\n') :
    RefusesLine (char c) :=
  fun _ hline => char_of_head? (hline.head?_ne hc hend)

theorem keepsLine_exactly (count : Nat) : KeepsLine (exactly isDigit count) := by
  induction count with
  | zero => exact keepsLine_pure []
  | succ count ih => exact keepsLine_digit.bind fun c => ih.bind fun word => keepsLine_pure _

theorem keepsLine_fixedNumber (count : Nat) : KeepsLine (fixedNumber count) :=
  (keepsLine_exactly count).bind fun _ => keepsLine_pure _

theorem keepsLine_twoDigits (least greatest : Nat) : KeepsLine (twoDigits least greatest) := by
  refine (keepsLine_fixedNumber 2).bind fun n => ?_
  split
  · exact keepsLine_pure n
  · intro input rest a hline h
    cases h

theorem refusesLine_hourAndMinute : RefusesLine hourAndMinute :=
  (keepsLine_twoDigits 0 23).discard.refuses_bind fun _ =>
    (refusesLine_char rfl (by decide)).bind

theorem refusesLine_date : RefusesLine date :=
  (keepsLine_fixedNumber 4).refuses_bind fun _ => (refusesLine_char rfl (by decide)).bind

theorem refusesLine_dateTime : RefusesLine dateTime :=
  (refusesLine_date.bind.orElse refusesLine_hourAndMinute.bind).taken

/-! ## Numbers -/

theorem sign_line {input : List Char} (line : DigitLine input) :
    sign input = some (false, input) := by
  have hminus := accept_of_head? (line.head?_ne (c := '-') rfl (by decide))
  have hplus := accept_of_head? (line.head?_ne (c := '+') rfl (by decide))
  rw [sign, bind_of_some hminus]
  exact bind_of_some (discard_of_some hplus) _

theorem refusesLine_specialFloat : RefusesLine specialFloat := by
  intro input line
  have hinf : text "inf" input = none := (refusesLine_char rfl (by decide)).bind line
  have hnan : text "nan" input = none := (refusesLine_char rfl (by decide)).bind line
  rw [specialFloat, bind_of_some (discard_of_some (sign_line line)), orElse_apply, hinf, hnan]
  rfl

section Integers

variable (n : Nat) (rest : List Char)

theorem digitLine_digits : DigitLine (Decimal.digits n ++ '\n' :: rest) :=
  .append (fun _ hc => Decimal.isDigit_of_mem_digits hc) rest

theorem grouped_word {c : Char} {word : List Char} (hword : ∀ d ∈ c :: word, isDigit d) :
    grouped isDigit (c :: (word ++ '\n' :: rest)) = some (c :: word, '\n' :: rest) := by
  rw [grouped, bind_of_some (satisfy_of_pos (hword c List.mem_cons_self))]
  refine bind_of_some (repeated_word ?_ rfl) _
  intro d hd rest
  have hdigit := hword d (List.mem_cons_of_mem c hd)
  have hunderscore : d ≠ '_' := by
    rintro rfl
    cases hdigit
  rw [bind_of_some (accept_of_head? (by simpa using hunderscore))]
  simp [peek_bind, hdigit, map_apply, next]

theorem wholeDigits_digits :
    wholeDigits (Decimal.digits n ++ '\n' :: rest) = some (Decimal.digits n, '\n' :: rest) := by
  obtain ⟨c, word, hdigits, hzero⟩ := Decimal.digits_eq_cons n
  by_cases hc : c = '0'
  · rw [hzero hc]
    rfl
  · have hword : ∀ d ∈ c :: word, isDigit d :=
      fun d hd => Decimal.isDigit_of_mem_digits (hdigits ▸ hd)
    rw [hdigits, wholeDigits, bind_of_some (accept_of_head? (by simpa using hc))]
    exact grouped_word rest hword

theorem decimalInteger_digits :
    decimalInteger (Decimal.digits n ++ '\n' :: rest) = some ((n : Int), '\n' :: rest) := by
  rw [decimalInteger, bind_of_some (sign_line (digitLine_digits n rest)),
    bind_of_some (wholeDigits_digits n rest), Decimal.value_digits]
  rfl

theorem radixInteger_digits : radixInteger (Decimal.digits n ++ '\n' :: rest) = none := by
  obtain ⟨c, word, hdigits, hzero⟩ := Decimal.digits_eq_cons n
  by_cases hc : c = '0'
  · rw [hzero hc]
    rfl
  · rw [hdigits, radixInteger]
    exact bind_of_none (char_of_head? (by simpa using hc)) _

/-- Whole digits alone lack both of the parts that would make them more than an integer. -/
theorem decimalFloat_digits : decimalFloat (Decimal.digits n ++ '\n' :: rest) = none := by
  have hfraction : (optional fraction) ('\n' :: rest) = some (none, '\n' :: rest) :=
    optional_of_none rfl
  have hexponent : (optional exponent) ('\n' :: rest) = some (none, '\n' :: rest) :=
    optional_of_none rfl
  rw [decimalFloat, bind_of_some (sign_line (digitLine_digits n rest)),
    bind_of_some (wholeDigits_digits n rest), bind_of_some hfraction, bind_of_some hexponent]
  rfl

variable {n}

theorem integer_digits (h : (n : Int) ≤ maxInteger) :
    integer (Decimal.digits n ++ '\n' :: rest) = some ((n : Int), '\n' :: rest) := by
  have hleast : minInteger ≤ (n : Int) := le_trans (by decide) (Int.natCast_nonneg n)
  rw [integer, bind_apply, orElse_apply, radixInteger_digits, decimalInteger_digits]
  simp [hleast, h, pure_apply]

theorem scalar_line {input : List Char} (line : DigitLine input) :
    scalar input = (.dateTime <$> dateTime <|> .float <$> float <|> .integer <$> integer :
      Parser Node) input := by
  rw [scalar, peek_bind]
  refine congrFun ?_ input
  split
  · exact absurd ‹_› (line.head?_ne rfl (by decide))
  · exact absurd ‹_› (line.head?_ne rfl (by decide))
  · exact absurd ‹_› (line.head?_ne rfl (by decide))
  · exact absurd ‹_› (line.head?_ne rfl (by decide))
  · rfl

/-- A date and a number with a fraction or an exponent are tried before an integer. -/
theorem scalar_digits (h : (n : Int) ≤ maxInteger) :
    scalar (Decimal.digits n ++ '\n' :: rest) = some (.integer n, '\n' :: rest) := by
  have line := digitLine_digits n rest
  have hfloat : float (Decimal.digits n ++ '\n' :: rest) = none := by
    apply taken_of_none
    rw [orElse_apply, decimalFloat_digits, refusesLine_specialFloat line]
    rfl
  rw [scalar_line line, orElse_apply, map_apply, refusesLine_dateTime line, orElse_apply, map_apply,
    hfloat, map_apply, integer_digits rest h]
  rfl

end Integers

/-! ## Values -/

theorem value_of_head? {input : List Char} (harray : input.head? ≠ some '[')
    (hinline : input.head? ≠ some '\x7b') : value maxDepth input = scalar input := by
  rw [maxDepth, value, peek_bind]
  refine congrFun ?_ input
  split
  · exact absurd ‹_› harray
  · exact absurd ‹_› hinline
  · rfl

/-- The word stands for the node in front of the end of a line. -/
structure Reads (word : List Char) (node : Node) : Prop where
  blanks : ∀ rest, blanks (word ++ '\n' :: rest) = some ((), word ++ '\n' :: rest)
  value : ∀ rest, value maxDepth (word ++ '\n' :: rest) = some (node, '\n' :: rest)

theorem reads_digits {n : Nat} (h : (n : Int) ≤ maxInteger) :
    Reads (Decimal.digits n) (.integer n) where
  blanks rest := by
    have line := digitLine_digits n rest
    exact blanks_of_head? (line.head?_ne rfl (by decide)) (line.head?_ne rfl (by decide))
  value rest := by
    have line := digitLine_digits n rest
    rw [value_of_head? (line.head?_ne rfl (by decide)) (line.head?_ne rfl (by decide))]
    exact scalar_digits rest h

theorem reads_boolean (value : Bool) :
    Reads (if value then "true" else "false").toList (.boolean value) := by
  cases value
  · exact ⟨fun rest => rfl, fun rest => rfl⟩
  · exact ⟨fun rest => rfl, fun rest => rfl⟩

end StreamLexer.Toml
