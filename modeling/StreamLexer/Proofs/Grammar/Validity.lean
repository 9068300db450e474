import StreamLexer.Proofs.Number.Binary32
import StreamLexer.Proofs.Scan.Faults

/-! # What tokens and errors are made of

Whatever is read as a token, or faulted in place of one, is of its kind: no identifier is a keyword,
no number is negative or infinite, and an error names only what can cause it. For words that is
settled by the grammar. For faults it is kept by the ways in which readings are put together, with
what was known of the text when the fault was raised.
-/

set_option autoImplicit false

namespace StreamLexer

open CharClass Grammar

/-- Digits whose value is no integer of the language, or digits around a point whose value is
nearest to infinity. -/
def Grammar.Overflows (text : List Char) : Prop :=
  (IsDigits text ∧ 0x7FFFFFFF < Decimal.value text) ∨
    ∃ whole fraction, IsDigits whole ∧ IsDigits fraction ∧ text = whole ++ '.' :: fraction ∧
      Binary32.infinity ≤
        Binary32.nearest (Decimal.value (whole ++ fraction)) (Decimal.scale fraction.length)

def Token.Valid (limit : Option Nat) : Token → Prop
  | .identifier name =>
    IsName name.toList ∧ Keyword.ofSpelling? name = none ∧ Allows limit name.length
  | .keyword k => Allows limit k.spelling.length
  | .string content => Allows limit content.length
  | .int value => 0 ≤ value.toInt
  | .float value => value.isFinite = true ∧ value.negative = false
  | .operator _ => True

/-- Only the point of a number is not counted against the limit before the number is faulted. -/
def LexError.Cause.Valid (limit : Option Nat) : Cause → Prop
  | unrecognizedCharacter c => ¬isBlank c ∧ ¬Opens c
  | unrecognizedOperator text => text = "&" ∨ text = "|"
  | malformedNumber text =>
    ∃ digits, IsDigits digits ∧ Allows limit digits.length ∧ text.toList = digits ++ ['.']
  | numberOverflow text => Overflows text.toList ∧ Allows limit text.length
  | invalidEscape letter => letter ∉ ['"', '\\', 'n', 't', 'r', '0']
  | literalTooLong bound => limit = some bound
  | unterminatedString | streamRead _ => True

/-! ## Tokens -/

theorem Grammar.Denotes.valid {limit : Option Nat} {lexeme : List Char} {token : Token}
    (h : Denotes lexeme token) (hfits : Fits limit lexeme token) : token.Valid limit := by
  cases h with
  | keyword k => exact hfits
  | identifier hname hfree =>
    refine ⟨by rwa [String.toList_ofList], ?_, by rwa [String.length_ofList]⟩
    cases hspelling : Keyword.ofSpelling? (String.ofList lexeme) with
    | none => rfl
    | some k =>
      refine absurd ?_ (hfree k)
      rw [Keyword.spelling_of_ofSpelling? hspelling, String.toList_ofList]
  | int hdigits hvalue =>
    rw [Token.Valid, Int32.toInt_ofNat_of_lt (by omega)]
    exact Int.natCast_nonneg _
  | float hwhole hfraction hvalue => exact Binary32.finite_of_ofDecimal? hvalue
  | string hbody => exact hfits
  | operator o => trivial

namespace Reading

variable {α β : Type} {limit : Option Nat} {rest : List Char} {c : Char}

/-- The fault of a reading, if it has one, has a valid cause. -/
def Valid (limit : Option Nat) (reading : Reading α) : Prop :=
  ∀ fault, reading.result = .error fault → fault.cause.Valid limit

namespace Valid

variable {reading : Reading α}

theorem done (a : α) (rest : List Char) : (Reading.done a rest).Valid limit := nofun

theorem fail {cause : LexError.Cause} (h : cause.Valid limit) (rest : List Char) :
    (Reading.fail cause rest : Reading α).Valid limit := by
  rintro fault ⟨⟩
  exact h

theorem push (h : reading.Valid limit) (c : Char) : (reading.push c).Valid limit := h

theorem behind (h : reading.Valid limit) (taken : List Char) :
    (Reading.behind taken reading).Valid limit := h

theorem bind {next : α → List Char → Reading β} (h : reading.Valid limit)
    (hnext : ∀ a, reading.result = .ok a → (next a reading.rest).Valid limit) :
    (reading.bind next).Valid limit := by
  obtain ⟨fault | a, taken, rest⟩ := reading
  · rintro fault' ⟨⟩
    exact h fault rfl
  · exact hnext a rfl

theorem map (h : reading.Valid limit) (f : α → β) : (reading.map f).Valid limit :=
  h.bind fun _ _ => done _ _

theorem check (limit : Option Nat) (length : Nat) (rest : List Char) :
    (Reading.check limit length rest).Valid limit := by
  simp only [Reading.check]
  split
  · exact done () rest
  · split
    · apply fail
      rfl
    · exact done () rest

theorem check_bind {length : Nat} {next : Reading β} (h : next.Valid limit) :
    ((Reading.check limit length rest).bind fun _ _ => next).Valid limit :=
  (check limit length rest).bind fun _ _ => h

theorem span (p : Char → Bool) (count : Nat) (text : List Char) :
    (Reading.span limit p count text).Valid limit := by
  induction text generalizing count with
  | nil => exact done _ _
  | cons c rest ih =>
    simp only [Reading.span]
    split
    · exact (check_bind ((ih _).map _)).push c
    · exact done _ _

theorem escaped (before : List Char) (letter : Char) (rest : List Char) :
    (Reading.escaped before letter rest).Valid limit := by
  rw [Reading.escaped]
  apply push
  cases hmeaning : Escape.meaningOf? letter with
  | some meaning => exact done _ _
  | none =>
    rintro fault ⟨⟩
    intro hletter
    simp only [List.mem_cons, List.not_mem_nil, or_false] at hletter
    rcases hletter with rfl | rfl | rfl | rfl | rfl | rfl <;> cases hmeaning

theorem content (before : List Char) (count : Nat) (text : List Char) :
    (Reading.content limit before count text).Valid limit := by
  fun_induction Reading.content limit before count text with
  | case1 =>
    apply fail
    trivial
  | case2 => exact (done _ _).push _
  | case3 =>
    apply push
    apply fail
    trivial
  | case4 before count letter rest _ ih =>
    apply push
    apply (escaped before letter rest).bind
    intro meaning _
    exact check_bind (ih.map _)
  | case5 before count c rest _ _ ih => exact (check_bind (ih.map _)).push _

/-! ## Numbers -/

theorem ofDigits {digits : List Char} (hdigits : IsDigits digits)
    (hallows : Allows limit digits.length) : (Reading.ofDigits digits rest).Valid limit := by
  simp only [Reading.ofDigits]
  split
  · exact done _ _
  · rename_i hvalue
    apply fail
    rw [LexError.Cause.Valid, String.toList_ofList, String.length_ofList]
    exact ⟨.inl ⟨hdigits, Nat.lt_of_not_le hvalue⟩, hallows⟩

theorem ofFloat {text : List Char} {value : Option Binary32}
    (h : value = none → Overflows text ∧ Allows limit text.length) :
    (Reading.ofFloat text value rest).Valid limit := by
  cases value with
  | some value => exact done _ _
  | none =>
    apply fail
    rw [LexError.Cause.Valid, String.toList_ofList, String.length_ofList]
    exact h rfl

theorem fraction {whole : List Char} (hwhole : IsDigits whole)
    (hallows : Allows limit whole.length) (text : List Char) :
    (Reading.fraction limit whole text).Valid limit := by
  rw [Reading.fraction]
  split
  · rename_i hhead
    apply (span _ _ _).bind
    intro digits hspan
    obtain ⟨hdigits, hboth, -⟩ := span_digits hhead hspan
    apply ofFloat
    intro hnone
    constructor
    · exact .inr ⟨whole, digits, hwhole, hdigits, rfl, Binary32.ofDecimal?_eq_none_iff.mp hnone⟩
    · rw [List.length_append, List.length_cons]
      exact hboth.mono (by omega)
  · apply fail
    exact ⟨whole, hwhole, hallows, String.toList_ofList⟩

theorem number (hc : isDigit c) : (Reading.number limit (c :: rest)).Valid limit := by
  apply (span _ _ _).bind
  intro whole hspan
  have hhead : (c :: rest).head?.any isDigit := hc
  obtain ⟨hwhole, hallows, left, -, heq⟩ := span_digits hhead hspan
  rw [Nat.zero_add] at hallows
  rw [heq]
  dsimp only
  by_cases hpoint : '.' ∈ left.head?
  · obtain ⟨tail, rfl⟩ := List.head?_eq_some_iff.mp hpoint
    rw [accept_of_head]
    exact (fraction hwhole hallows tail).push '.'
  · rw [accept_of_not hpoint]
    exact ofDigits hwhole hallows

/-! ## Operators -/

/-- A character that must be doubled is the only spelling that is no operator. -/
theorem ofSpelling_single (hc : isOperatorStart c) :
    (Reading.ofSpelling [c] rest).Valid limit := by
  simp only [Reading.ofSpelling]
  split
  · exact done _ _
  · rename_i hnone
    have hpartner := partner_of_unspelled hc hnone
    apply fail
    simp only [Reading.partner?] at hpartner
    split at hpartner <;> cases hpartner
    · cases hnone
    · exact .inl rfl
    · exact .inr rfl

theorem ofSpelling_pair {d : Char} (h : Reading.partner? c = some d) :
    (Reading.ofSpelling [c, d] rest).Valid limit := by
  obtain ⟨o, ho⟩ : ∃ o : Operator, Operator.ofSpelling? (String.ofList [c, d]) = some o := by
    simp only [Reading.partner?] at h
    split at h <;> cases h <;> exact ⟨_, rfl⟩
  simp only [Reading.ofSpelling, ho]
  exact done _ _

theorem operator (hc : isOperatorStart c) (rest : List Char) :
    (Reading.operator c rest).Valid limit := by
  by_cases hpartner : ∃ d ∈ rest.head?, Reading.partner? c = some d
  · obtain ⟨d, hhead, hd⟩ := hpartner
    obtain ⟨tail, rfl⟩ := List.head?_eq_some_iff.mp hhead
    rw [operator_of_partner hd]
    exact (ofSpelling_pair hd).behind _
  · rw [operator_of_not fun d hd h => hpartner ⟨d, hd, h⟩]
    exact (ofSpelling_single hc).behind _

/-! ## Tokens -/

/-- Whatever is faulted in front of a character that is no blank has a valid cause. -/
theorem token (hblank : ¬isBlank c) (rest : List Char) :
    (Reading.token limit c rest).Valid limit := by
  rw [Reading.token]
  split
  · exact ((content _ _ _).map _).push _
  · rename_i hquote
    split
    · rename_i hdigit
      exact number hdigit
    · rename_i hdigit
      split
      · exact (span _ _ _).map _
      · rename_i hword
        split
        · rename_i hoperator
          exact operator hoperator rest
        · rename_i hoperator
          apply push
          apply fail
          refine ⟨hblank, ?_⟩
          rintro (h | h | h | h)
          · exact hquote h
          · exact hdigit h
          · exact hword h
          · exact hoperator h

end Valid

theorem token_valid {token : Token} (h : (Reading.token limit c rest).result = .ok token) :
    token.Valid limit := by
  obtain ⟨hdenotes, hfits, -⟩ := token_recognizes h
  exact hdenotes.valid hfits

end Reading

end StreamLexer
