import StreamLexer.Proofs.Grammar.Scanning
import StreamLexer.Proofs.Scan.Lookahead

/-! # Readings of numbers

What follows a run of digits decides what the number is, or why it is none. A number with a point
has its text behind the point as well, and it is faulted there if no digit follows. The length of
the text is looked at behind each digit, but not behind the point.
-/

set_option autoImplicit false

namespace StreamLexer

open CharClass

namespace Grammar

/-- The text of a number that starts with the digits `whole`, in front of what no longer belongs to
it. It can be that of no number: a point is part of it even if no digit follows. -/
inductive Numeral (whole : List Char) : (text left : List Char) → Prop where
  | integer {left : List Char} (hdigit : ∀ c ∈ left.head?, ¬isDigit c)
      (hpoint : '.' ∉ left.head?) : Numeral whole whole left
  | dangling {left : List Char} (hdigit : ∀ c ∈ left.head?, ¬isDigit c) :
      Numeral whole (whole ++ ['.']) left
  | fraction {digits left : List Char} (hdigits : IsDigits digits)
      (hdigit : ∀ c ∈ left.head?, ¬isDigit c) : Numeral whole (whole ++ '.' :: digits) left

/-- How much is taken of a number before it is seen to be longer than `n`. The length is looked at
behind each digit and not behind the point, so the point is never the last character taken. -/
def reach (whole : List Char) (n : Nat) : Nat :=
  if n = whole.length then n + 2 else n + 1

theorem reach_cases (whole : List Char) (n : Nat) :
    n = whole.length ∧ reach whole n = n + 2 ∨ n ≠ whole.length ∧ reach whole n = n + 1 := by
  by_cases hpoint : n = whole.length
  · exact .inl ⟨hpoint, if_pos hpoint⟩
  · exact .inr ⟨hpoint, if_neg hpoint⟩

theorem exists_numeral {c : Char} (hc : isDigit c) (rest : List Char) :
    ∃ whole text left, IsDigits whole ∧ Numeral whole text left ∧ text ++ left = c :: rest := by
  have hdigits : ∀ text : List Char, ∀ d ∈ text.takeWhile isDigit, isDigit d := fun _ _ hd =>
    List.mem_takeWhile_imp hd
  have hstops : ∀ text : List Char, ∀ d ∈ (text.dropWhile isDigit).head?, ¬isDigit d :=
    fun _ _ => Reading.not_class_of_head
  have hwhole : IsDigits ((c :: rest).takeWhile isDigit) := by
    refine ⟨?_, hdigits _⟩
    rw [List.takeWhile_cons_of_pos hc]
    exact List.cons_ne_nil _ _
  have hsplit := @List.takeWhile_append_dropWhile _ isDigit (c :: rest)
  have hend := hstops (c :: rest)
  generalize (c :: rest).takeWhile isDigit = whole at hwhole hsplit
  generalize (c :: rest).dropWhile isDigit = left at hsplit hend
  by_cases hpoint : '.' ∈ left.head?
  · obtain ⟨later, rfl⟩ := List.head?_eq_some_iff.mp hpoint
    have hlater := @List.takeWhile_append_dropWhile _ isDigit later
    have hdigit := hstops later
    by_cases hnone : later.takeWhile isDigit = []
    · rw [hnone, List.nil_append] at hlater
      rw [hlater] at hdigit
      refine ⟨whole, whole ++ ['.'], later, hwhole, .dangling hdigit, ?_⟩
      rw [List.append_assoc, ← hsplit, List.singleton_append]
    · refine ⟨whole, whole ++ '.' :: later.takeWhile isDigit, later.dropWhile isDigit, hwhole,
        .fraction ⟨hnone, hdigits later⟩ hdigit, ?_⟩
      rw [List.append_assoc, List.cons_append, hlater, hsplit]
  · exact ⟨whole, whole, left, hwhole, .integer hend hpoint, hsplit⟩

theorem Numeral.exists_append {whole text left : List Char} (h : Numeral whole text left) :
    ∃ more, text = whole ++ more := by
  cases h with
  | integer => exact ⟨[], (List.append_nil _).symm⟩
  | dangling => exact ⟨_, rfl⟩
  | fraction => exact ⟨_, rfl⟩

/-- What is too long without being seen to be so ends with the point. -/
theorem Numeral.point_of_length {whole text left : List Char} {n : Nat}
    (h : Numeral whole text left) (hreach : text.length < reach whole n) (hlong : n < text.length) :
    whole.length = n ∧ text = whole ++ ['.'] := by
  have hcases := reach_cases whole n
  cases h with
  | integer => omega
  | dangling =>
    rw [List.length_append, List.length_singleton] at hreach hlong
    exact ⟨by omega, rfl⟩
  | fraction hdigits =>
    have hmore := List.length_pos_iff.mpr hdigits.1
    rw [List.length_append, List.length_cons] at hreach hlong
    omega

end Grammar

namespace Reading

open Grammar

variable {limit : Option Nat} {c : Char} {text rest : List Char} {token : Token}

theorem ofDigits_ok {digits : List Char} (h : (ofDigits digits rest).result = .ok token) :
    Decimal.value digits ≤ 0x7FFFFFFF ∧ token = .int (Int32.ofNat (Decimal.value digits)) ∧
      ofDigits digits rest = done token rest := by
  simp only [ofDigits] at h ⊢
  split at h
  · rename_i hvalue
    cases h
    exact ⟨hvalue, rfl, if_pos hvalue⟩
  · cases h

theorem ofFloat_ok {value : Option Binary32} (h : (ofFloat text value rest).result = .ok token) :
    ∃ x, value = some x ∧ token = .float x ∧ ofFloat text value rest = done token rest := by
  cases value with
  | none => cases h
  | some x =>
    cases h
    exact ⟨x, rfl, rfl, rfl⟩

theorem fraction_ok {count : Nat} {whole : List Char} {decode : List Char → Option Binary32}
    (hhead : rest.head?.any isDigit)
    (h : ((span limit isDigit count rest).bind fun digits rest =>
      ofFloat (whole ++ '.' :: digits) (decode digits) rest).result = .ok token) :
    ∃ digits left value, IsDigits digits ∧ Allows limit (count + digits.length) ∧
      (∀ c ∈ left.head?, ¬isDigit c) ∧ decode digits = some value ∧ token = .float value ∧
      ((span limit isDigit count rest).bind fun digits rest =>
        ofFloat (whole ++ '.' :: digits) (decode digits) rest) = ⟨.ok token, digits, left⟩ := by
  obtain ⟨run, hspan, hfloat⟩ := ok_of_bind h
  obtain ⟨hdigits, hallows, left, hends, heq⟩ := span_digits hhead hspan
  rw [heq] at hfloat ⊢
  obtain ⟨value, hvalue, rfl, hdone⟩ := ofFloat_ok hfloat
  refine ⟨run, left, value, hdigits, hallows, hends, hvalue, rfl, ?_⟩
  rw [bind_ok, hdone, behind_done]

theorem digit_of_fraction {whole : List Char} (h : (fraction limit whole rest).result = .ok token) :
    rest.head?.any isDigit := by
  by_cases hhead : rest.head?.any isDigit
  · exact hhead
  · rw [fraction, if_neg hhead] at h
    cases h

theorem fraction_recognizes {whole : List Char} (hwhole : IsDigits whole)
    (h : (fraction limit whole rest).result = .ok token) :
    ∃ digits left, fraction limit whole rest = ⟨.ok token, digits, left⟩ ∧
      Recognizes limit ⟨.ok token, whole ++ '.' :: digits, left⟩ token := by
  have hhead := digit_of_fraction h
  rw [fraction, if_pos hhead] at h ⊢
  obtain ⟨digits, left, value, hdigits, hallows, hends, hvalue, rfl, heq⟩ :=
    @fraction_ok limit rest token (whole.length + 1) whole (Binary32.ofDecimal? whole) hhead h
  refine ⟨digits, left, heq, .float hwhole hdigits hvalue, ?_, fun c hc => ⟨hends c hc, ?_⟩⟩
  · apply hallows.mono
    simp only [List.length_append, List.length_cons]
    omega
  · rintro _ ⟨⟩

theorem number_recognizes (hc : isDigit c) (h : (number limit (c :: rest)).result = .ok token) :
    Recognizes limit (number limit (c :: rest)) token := by
  obtain ⟨whole, hspan, hlater⟩ := ok_of_bind h
  have hhead : (c :: rest).head?.any isDigit := hc
  obtain ⟨hwhole, hallows, left, hends, heq⟩ := span_digits hhead hspan
  rw [Nat.zero_add] at hallows
  rw [heq] at hlater
  rw [number, heq]
  dsimp only at hlater
  by_cases hpoint : '.' ∈ left.head?
  · obtain ⟨tail, rfl⟩ := List.head?_eq_some_iff.mp hpoint
    rw [accept_of_head] at hlater
    obtain ⟨digits, left, hfraction, hrecognizes⟩ := fraction_recognizes hwhole hlater
    rw [bind_ok, accept_of_head, hfraction]
    exact ⟨hrecognizes.denotes, hrecognizes.fits, hrecognizes.ends⟩
  · rw [accept_of_not hpoint] at hlater
    obtain ⟨hvalue, rfl, hdone⟩ := ofDigits_ok hlater
    rw [bind_ok, accept_of_not hpoint, hdone, behind_done]
    refine ⟨.int hwhole hvalue, hallows, fun d hd => ⟨hends d hd, fun _ _ hdot => ?_⟩⟩
    exact hpoint (hdot ▸ hd)

/-! ## Numbers by their text -/

section Whole

variable {whole : List Char} (hwhole : IsDigits whole)
include hwhole

theorem number_of_whole (hallows : Allows limit whole.length)
    (hends : ∀ c ∈ rest.head?, ¬isDigit c) :
    number limit (whole ++ rest) =
      behind whole (accept '.' rest (fraction limit whole) (ofDigits whole rest)) := by
  rw [number, span_append hwhole.2 hends (by rwa [Nat.zero_add]), bind_ok]

/-- Behind the digits of an integer stands no point. -/
theorem number_integer (hallows : Allows limit whole.length)
    (hends : ∀ c ∈ rest.head?, ¬isDigit c) (hpoint : '.' ∉ rest.head?) :
    number limit (whole ++ rest) = behind whole (ofDigits whole rest) := by
  rw [number_of_whole hwhole hallows hends, accept_of_not hpoint]

theorem number_of_point (hallows : Allows limit whole.length) (rest : List Char) :
    number limit (whole ++ '.' :: rest) = behind whole ((fraction limit whole rest).push '.') := by
  have hends : ∀ c ∈ ('.' :: rest).head?, ¬isDigit c := by
    rintro c ⟨⟩
    decide
  rw [number_of_whole hwhole hallows hends, accept_of_head]

/-- No digit stands behind the point. -/
theorem number_open (hallows : Allows limit whole.length) (hends : ∀ c ∈ rest.head?, ¬isDigit c) :
    number limit (whole ++ '.' :: rest) =
      ⟨.error ⟨.malformedNumber (String.ofList (whole ++ ['.'])), []⟩, whole ++ ['.'], rest⟩ := by
  have hnone : ¬rest.head?.any isDigit := by
    intro hany
    cases rest with
    | nil => cases hany
    | cons d rest => exact hends d rfl hany
  rw [number_of_point hwhole hallows, fraction, if_neg hnone]
  rfl

theorem number_fraction {digits : List Char} (hdigits : IsDigits digits)
    (hallows : Allows limit (whole ++ '.' :: digits).length)
    (hends : ∀ c ∈ rest.head?, ¬isDigit c) :
    number limit (whole ++ '.' :: (digits ++ rest)) =
      behind (whole ++ '.' :: digits)
        (ofFloat (whole ++ '.' :: digits) (Binary32.ofDecimal? whole digits) rest) := by
  have hhead : (digits ++ rest).head?.any isDigit := by
    obtain ⟨d, tail, rfl, hd⟩ := hdigits.head
    exact hd
  rw [List.length_append, List.length_cons] at hallows
  have hspan := span_append hdigits.2 hends
    (hallows.mono (by omega) : Allows limit (whole.length + 1 + digits.length))
  rw [number_of_point hwhole (hallows.mono (by omega)), fraction, if_pos hhead, hspan, bind_ok,
    behind_push_behind]

/-! ## Numbers under a limit -/

variable {n : Nat} {left : List Char}

theorem number_beyond_whole (hlong : n < whole.length) (rest : List Char) :
    number (some n) (whole ++ rest) =
      ⟨.error ⟨.literalTooLong n, []⟩, whole.take (n + 1), whole.drop (n + 1) ++ rest⟩ := by
  have hspan := span_beyond hwhole.2 hwhole.1 (by omega : n < 0 + whole.length) rest
  have htaken : max 1 (n + 1 - 0) = n + 1 := by omega
  rw [htaken] at hspan
  rw [number, hspan, bind_error]

/-- Where the point is the first character too many, the digit behind it is taken as well. -/
theorem number_beyond_point {digits : List Char} (hdigits : IsDigits digits)
    (hshort : whole.length ≤ n) (hlong : n < (whole ++ '.' :: digits).length) (rest : List Char) :
    number (some n) (whole ++ '.' :: (digits ++ rest)) =
      ⟨.error ⟨.literalTooLong n, []⟩, (whole ++ '.' :: digits).take (reach whole n),
        (whole ++ '.' :: digits).drop (reach whole n) ++ rest⟩ := by
  have hhead : (digits ++ rest).head?.any isDigit := by
    obtain ⟨d, tail, rfl, hd⟩ := hdigits.head
    exact hd
  have hallows : Allows (some n) whole.length := fun bound hbound =>
    Option.some.inj hbound ▸ hshort
  rw [List.length_append, List.length_cons] at hlong
  have hspan := span_beyond hdigits.2 hdigits.1
    (by omega : n < whole.length + 1 + digits.length) rest
  have hreach : reach whole n = whole.length + (max 1 (n + 1 - (whole.length + 1)) + 1) := by
    have hcases := reach_cases whole n
    omega
  rw [number_of_point hwhole hallows, fraction, if_pos hhead, hspan, bind_error, hreach]
  simp only [behind, push, List.take_length_add_append, List.drop_length_add_append,
    List.take_succ_cons, List.drop_succ_cons]

/-- A number that is not too long is read to its end, and what it is does not depend on the
limit. -/
theorem number_within (h : Numeral whole text left) :
    ∃ result, ∀ limit, (∀ n ∈ limit, text.length < reach whole n) →
      number limit (text ++ left) = ⟨result, text, left⟩ := by
  have hallows : ∀ {limit : Option Nat}, (∀ n ∈ limit, whole.length < reach whole n) →
      Allows limit whole.length := by
    intro limit hwithin n hn
    have hlt := hwithin n hn
    have hcases := reach_cases whole n
    omega
  cases h with
  | integer hdigit hpoint =>
    obtain ⟨result, hresult⟩ := still_ofDigits text
    refine ⟨result, fun limit hwithin => ?_⟩
    rw [number_integer hwhole (hallows hwithin) hdigit hpoint, hresult, behind, List.append_nil]
  | dangling hdigit =>
    refine ⟨.error ⟨.malformedNumber (String.ofList (whole ++ ['.'])), []⟩,
      fun limit hwithin => ?_⟩
    have hshort : ∀ n ∈ limit, whole.length < reach whole n := fun n hn =>
      Nat.lt_of_succ_lt (by simpa using hwithin n hn)
    rw [List.append_assoc, List.singleton_append, number_open hwhole (hallows hshort) hdigit]
  | @fraction digits left hdigits hdigit =>
    obtain ⟨result, hresult⟩ :=
      still_ofFloat (whole ++ '.' :: digits) (Binary32.ofDecimal? whole digits)
    refine ⟨result, fun limit hwithin => ?_⟩
    have hfits : Allows limit (whole ++ '.' :: digits).length := by
      intro n hn
      have hlt := hwithin n hn
      have hcases := reach_cases whole n
      have hmore := List.length_pos_iff.mpr hdigits.1
      rw [List.length_append, List.length_cons] at hlt ⊢
      omega
    have hfloat : ofFloat (whole ++ '.' :: digits) (Binary32.ofDecimal? whole digits) left =
        ⟨result, [], left⟩ := hresult left
    rw [List.append_assoc, List.cons_append, number_fraction hwhole hdigits hfits hdigit, hfloat,
      behind, List.append_nil]

theorem number_beyond (h : Numeral whole text left) (hbeyond : reach whole n ≤ text.length) :
    number (some n) (text ++ left) =
      ⟨.error ⟨.literalTooLong n, []⟩, text.take (reach whole n),
        text.drop (reach whole n) ++ left⟩ := by
  have hcases := reach_cases whole n
  by_cases hlong : n < whole.length
  · have hreach : reach whole n = n + 1 := by omega
    obtain ⟨more, rfl⟩ := h.exists_append
    rw [hreach, List.append_assoc, number_beyond_whole hwhole hlong,
      List.take_append_of_le_length hlong, List.drop_append_of_le_length hlong, List.append_assoc]
  · cases h with
    | integer => omega
    | dangling =>
      rw [List.length_append, List.length_singleton] at hbeyond
      omega
    | fraction hdigits =>
      rw [List.append_assoc, List.cons_append]
      exact number_beyond_point hwhole hdigits (Nat.le_of_not_lt hlong) (by omega) left

end Whole

end Reading

end StreamLexer
