import StreamLexer.Proofs.Grammar.Body
import StreamLexer.Proofs.Grammar.Number
import StreamLexer.Proofs.Number.Decimal

/-! # Readings of tokens

The first character of a lexeme decides which scanner reads it, so what is proved of each scanner
holds of all tokens: a reading succeeds if and only if a lexeme that fits stands in front of
something that does not belong to it.
-/

set_option autoImplicit false

namespace StreamLexer

open CharClass Grammar

namespace Grammar

/-- Only an operator that is the beginning of another one takes something more. -/
theorem absorbs_operator_iff {o : Operator} {d : Char} :
    Absorbs (.operator o) d ↔ ∃ c, o.spelling.toList = [c] ∧ Reading.partner? c = some d := by
  cases o <;> simp [Absorbs, Operator.spelling, Reading.partner?, eq_comm]

theorem spelling_shape (o : Operator) :
    (∃ c, o.spelling.toList = [c]) ∨
      ∃ c d, o.spelling.toList = [c, d] ∧ Reading.partner? c = some d := by
  cases o <;> first
    | exact .inl ⟨_, rfl⟩
    | exact .inr ⟨_, _, rfl, rfl⟩

theorem start_of_spelling (o : Operator) : ∃ c rest, o.spelling.toList = c :: rest ∧
    isOperatorStart c := by
  cases o <;> simp [Operator.spelling, isOperatorStart]

theorem exists_spelling {c : Char} (h : isOperatorStart c) :
    ∃ (o : Operator) (rest : List Char), o.spelling.toList = c :: rest := by
  simp only [isOperatorStart, List.contains_eq_mem, List.mem_cons, List.not_mem_nil, or_false,
    decide_eq_true_eq] at h
  rcases h with rfl | rfl | rfl | rfl | rfl | rfl | rfl | rfl | rfl | rfl | rfl
  exacts [⟨.minus, _, rfl⟩, ⟨.notEqual, _, rfl⟩, ⟨.multiply, _, rfl⟩, ⟨.divide, _, rfl⟩,
    ⟨.modulo, _, rfl⟩, ⟨.plus, _, rfl⟩, ⟨.lessThan, _, rfl⟩, ⟨.greaterThan, _, rfl⟩,
    ⟨.equal, _, rfl⟩, ⟨.logicalAnd, _, rfl⟩, ⟨.logicalOr, _, rfl⟩]

/-- Some lexeme starts with this character. -/
def Opens (c : Char) : Prop :=
  c = '"' ∨ isDigit c ∨ isWordStart c ∨ isOperatorStart c

instance : DecidablePred Opens := fun c =>
  inferInstanceAs (Decidable (c = '"' ∨ isDigit c ∨ isWordStart c ∨ isOperatorStart c))

theorem not_digit_of_wordStart {c : Char} (h : isWordStart c) : ¬isDigit c := by
  simp only [isWordStart, isLetter, isDigit, Bool.or_eq_true, Bool.and_eq_true, decide_eq_true_eq,
    Char.le_def, UInt32.le_iff_toNat_le] at h ⊢
  rcases h with rfl | ⟨hlow, -⟩ | ⟨hlow, -⟩
  · decide
  · intro hdigit
    exact absurd (Nat.le_trans hlow hdigit.2) (by decide)
  · intro hdigit
    exact absurd (Nat.le_trans hlow hdigit.2) (by decide)

theorem other_of_operatorStart {c : Char} (h : isOperatorStart c) :
    c ≠ '"' ∧ ¬isDigit c ∧ ¬isWordStart c := by
  simp only [isOperatorStart, List.contains_eq_mem, List.mem_cons, List.not_mem_nil, or_false,
    decide_eq_true_eq] at h
  rcases h with rfl | rfl | rfl | rfl | rfl | rfl | rfl | rfl | rfl | rfl | rfl <;> decide

theorem Opens.not_blank {c : Char} (h : Opens c) : ¬isBlank c := by
  intro hblank
  simp only [isBlank, Bool.or_eq_true, decide_eq_true_eq] at hblank
  rcases hblank with ((rfl | rfl) | rfl) | rfl <;> exact absurd h (by decide)

theorem Opens.ne_point {c : Char} (h : Opens c) : c ≠ '.' := by
  rintro rfl
  exact absurd h (by decide)

theorem Denotes.opens {lexeme : List Char} {token : Token} (h : Denotes lexeme token) :
    ∃ c tail, lexeme = c :: tail ∧ Opens c := by
  cases h with
  | keyword k =>
    have hname := isName_spelling k
    cases hspelling : k.spelling.toList with
    | nil => exact absurd hname (by rw [hspelling]; exact id)
    | cons c tail =>
      have hstart := (hspelling ▸ hname : IsName (c :: tail)).1
      exact ⟨c, tail, rfl, .inr (.inr (.inl hstart))⟩
  | identifier hname =>
    match lexeme, hname with
    | c :: tail, hname => exact ⟨c, tail, rfl, .inr (.inr (.inl hname.1))⟩
  | int hdigits =>
    obtain ⟨c, tail, hshape, hc⟩ := hdigits.head
    exact ⟨c, tail, hshape, .inr (.inl hc)⟩
  | @float whole fraction value hwhole =>
    obtain ⟨c, tail, hshape, hc⟩ := hwhole.head
    exact ⟨c, tail ++ '.' :: fraction, by rw [hshape]; rfl, .inr (.inl hc)⟩
  | string => exact ⟨'"', _, rfl, .inl rfl⟩
  | operator o =>
    obtain ⟨c, tail, hspelling, hstart⟩ := start_of_spelling o
    exact ⟨c, tail, hspelling, .inr (.inr (.inr hstart))⟩

theorem opens_iff {c : Char} : Opens c ↔ ∃ tail token, Denotes (c :: tail) token := by
  constructor
  · rintro (rfl | hdigit | hstart | hstart)
    · exact ⟨['"'], _, .string .nil⟩
    · have hdigits : IsDigits [c] := ⟨nofun, by simpa using hdigit⟩
      exact ⟨[], _, .int hdigits (Nat.le_trans (Decimal.value_singleton_le hdigit) (by decide))⟩
    · exact ⟨[], _, denotes_ofWord ⟨hstart, nofun⟩⟩
    · obtain ⟨o, rest, hspelling⟩ := exists_spelling hstart
      exact ⟨rest, .operator o, hspelling ▸ Denotes.operator o⟩
  · rintro ⟨tail, token, hdenotes⟩
    obtain ⟨d, rest, hshape, hopens⟩ := hdenotes.opens
    cases hshape
    exact hopens

end Grammar

namespace Reading

variable {limit : Option Nat} {c : Char} {text rest : List Char} {token : Token}

theorem ofSpelling_ok (h : (ofSpelling text rest).result = .ok token) :
    ∃ o : Operator, o.spelling.toList = text ∧ token = .operator o ∧
      ofSpelling text rest = done token rest := by
  simp only [ofSpelling] at h ⊢
  cases hspelling : Operator.ofSpelling? (String.ofList text) with
  | none => simp [hspelling, fail] at h
  | some o =>
    simp only [hspelling, done, Except.ok.injEq] at h
    subst h
    refine ⟨o, ?_, rfl, rfl⟩
    rw [Operator.spelling_of_ofSpelling? hspelling, String.toList_ofList]

theorem ofSpelling_spelling (o : Operator) (rest : List Char) :
    ofSpelling o.spelling.toList rest = done (.operator o) rest := by
  rw [ofSpelling, String.ofList_toList, Operator.ofSpelling?_spelling]

theorem operator_of_partner {d : Char} (h : Reading.partner? c = some d) :
    operator c (d :: rest) = behind [c, d] (ofSpelling [c, d] rest) := by
  rw [operator, operatorText, h]
  dsimp only
  rw [accept_of_head]
  rfl

theorem operator_of_not (h : ∀ d ∈ rest.head?, Reading.partner? c ≠ some d) :
    operator c rest = behind [c] (ofSpelling [c] rest) := by
  have htext : operatorText c rest = done [c] rest := by
    simp only [operatorText]
    split
    · rfl
    · rename_i d hd
      exact accept_of_not (fun hhead => h d hhead hd) _ _
  rw [operator, htext]
  rfl

theorem operator_recognizes (h : (operator c rest).result = .ok token) :
    Recognizes limit (operator c rest) token := by
  by_cases hpartner : ∃ d ∈ rest.head?, Reading.partner? c = some d
  · obtain ⟨d, hhead, hd⟩ := hpartner
    obtain ⟨tail, rfl⟩ := List.head?_eq_some_iff.mp hhead
    rw [operator_of_partner hd] at h ⊢
    obtain ⟨o, hspelling, rfl, hdone⟩ := ofSpelling_ok h
    rw [hdone, behind_done, ← hspelling]
    refine ⟨.operator o, trivial, fun _ _ => ⟨fun habsorbs => ?_, fun _ hint => nomatch hint⟩⟩
    obtain ⟨_, hsingle, -⟩ := absorbs_operator_iff.mp habsorbs
    rw [hspelling] at hsingle
    cases hsingle
  · have hnot : ∀ d ∈ rest.head?, Reading.partner? c ≠ some d := fun d hhead hd =>
      hpartner ⟨d, hhead, hd⟩
    rw [operator_of_not hnot] at h ⊢
    obtain ⟨o, hspelling, rfl, hdone⟩ := ofSpelling_ok h
    rw [hdone, behind_done, ← hspelling]
    refine ⟨.operator o, trivial, fun d hd => ⟨fun habsorbs => ?_, fun _ hint => nomatch hint⟩⟩
    obtain ⟨e, hsingle, he⟩ := absorbs_operator_iff.mp habsorbs
    rw [hspelling, List.singleton_inj] at hsingle
    exact hnot d hd (hsingle ▸ he)

theorem operator_append {o : Operator} (hspelling : o.spelling.toList = c :: text)
    (hends : ∀ d ∈ rest.head?, ¬Absorbs (.operator o) d) :
    operator c (text ++ rest) = ⟨.ok (.operator o), c :: text, rest⟩ := by
  have hdone := ofSpelling_spelling o rest
  rw [hspelling] at hdone
  obtain ⟨e, hshape⟩ | ⟨e, d, hshape, hpartner⟩ := spelling_shape o
  · obtain ⟨rfl, rfl⟩ : e = c ∧ text = [] := by simpa [eq_comm] using hspelling.symm.trans hshape
    have hnot : ∀ d ∈ rest.head?, Reading.partner? e ≠ some d := fun d hd he =>
      hends d hd (absorbs_operator_iff.mpr ⟨e, hspelling, he⟩)
    rw [List.nil_append, operator_of_not hnot, hdone, behind_done]
  · obtain ⟨rfl, rfl⟩ : e = c ∧ text = [d] := by simpa [eq_comm] using hspelling.symm.trans hshape
    rw [List.singleton_append, operator_of_partner hpartner, hdone, behind_done]

/-- Whatever is read as a token is a lexeme of it. -/
theorem token_recognizes (h : (Reading.token limit c rest).result = .ok token) :
    Recognizes limit (Reading.token limit c rest) token := by
  simp only [Reading.token] at h ⊢
  split
  · rename_i hquote
    rw [if_pos hquote] at h
    exact string_recognizes h
  · rename_i hquote
    rw [if_neg hquote] at h
    split
    · rename_i hdigit
      rw [if_pos hdigit] at h
      exact number_recognizes hdigit h
    · rename_i hdigit
      rw [if_neg hdigit] at h
      split
      · rename_i hstart
        rw [if_pos hstart] at h
        exact word_recognizes hstart h
      · rename_i hstart
        rw [if_neg hstart] at h
        split
        · rename_i hoperator
          rw [if_pos hoperator] at h
          exact operator_recognizes h
        · rename_i hoperator
          rw [if_neg hoperator] at h
          cases h

theorem token_of_digit (h : isDigit c) : Reading.token limit c rest = number limit (c :: rest) := by
  have hquote : c ≠ '"' := by
    rintro rfl
    revert h
    decide
  rw [Reading.token, if_neg hquote, if_pos h]

theorem token_of_wordStart (h : isWordStart c) :
    Reading.token limit c rest = word limit (c :: rest) := by
  have hquote : c ≠ '"' := by
    rintro rfl
    revert h
    decide
  rw [Reading.token, if_neg hquote, if_neg (not_digit_of_wordStart h), if_pos h]

theorem token_of_operatorStart (h : isOperatorStart c) :
    Reading.token limit c rest = operator c rest := by
  obtain ⟨hquote, hdigit, hstart⟩ := other_of_operatorStart h
  rw [Reading.token, if_neg hquote, if_neg hdigit, if_neg hstart, if_pos h]

/-- A lexeme that fits is read as its token, if nothing that belongs to it follows. -/
theorem token_append (h : Denotes (c :: text) token) (hfits : Fits limit (c :: text) token)
    (hends : Ends token rest) :
    Reading.token limit c (text ++ rest) = ⟨.ok token, c :: text, rest⟩ := by
  generalize hlexeme : c :: text = lexeme at h hfits
  cases h with
  | keyword k =>
    have hname := isName_spelling k
    rw [← hlexeme] at hname hfits
    rw [token_of_wordStart hname.1, ← List.cons_append,
      word_append hname hfits fun d hd => (hends d hd).1, ← ofWord_spelling k, hlexeme]
  | identifier hname hfree =>
    subst hlexeme
    rw [token_of_wordStart hname.1, ← List.cons_append,
      word_append hname hfits fun d hd => (hends d hd).1, ofWord_of_free hfree]
  | int hdigits hvalue =>
    subst hlexeme
    rw [token_of_digit (hdigits.2 c List.mem_cons_self), ← List.cons_append,
      number_integer hdigits hfits (fun d hd => (hends d hd).1) fun hd => (hends '.' hd).2 _ rfl rfl,
      ofDigits, if_pos hvalue, behind_done]
  | @float whole fraction value hwhole hfraction hvalue =>
    have hc : isDigit c := by
      obtain ⟨d, tail, hshape, hd⟩ := hwhole.head
      rw [hshape, List.cons_append] at hlexeme
      exact (List.cons.inj hlexeme).1 ▸ hd
    rw [token_of_digit hc, ← List.cons_append, hlexeme, List.append_assoc, List.cons_append,
      number_fraction hwhole hfraction hfits fun d hd => (hends d hd).1, hvalue, ofFloat,
      behind_done]
  | @string body content hbody =>
    cases hlexeme
    rw [Fits, String.length_ofList] at hfits
    have htext : body ++ ['"'] ++ rest = body ++ '"' :: rest := List.append_assoc _ _ _
    have hclosed : string limit (body ++ '"' :: rest) = _ := string_closed hbody hfits
    rw [← htext] at hclosed
    exact hclosed
  | operator o =>
    obtain ⟨d, tail, hspelling, hstart⟩ := start_of_spelling o
    obtain ⟨rfl, rfl⟩ := List.cons_eq_cons.mp (hlexeme.trans hspelling)
    rw [token_of_operatorStart hstart, operator_append hspelling fun d hd => (hends d hd).1,
      hspelling]

end Reading

end StreamLexer
