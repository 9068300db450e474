import StreamLexer.Proofs.Grammar.Token

/-! # What a fault is about

A fault names a part of the text. The reading has taken this part last, so the fault stands in front
of it, and what is left goes on in such a way that nothing more of it belongs to the part. This is
kept by the ways in which readings are put together. A reading knows nothing of the stream, so none
of its faults says that the stream could not be read.
-/

set_option autoImplicit false

namespace StreamLexer

open CharClass

def LexError.Cause.isStream : Cause → Bool
  | .streamRead _ => true
  | _ => false

theorem LexError.isStreamError_eq (error : LexError) :
    error.isStreamError = error.cause.isStream := by
  obtain ⟨cause, position⟩ := error
  cases cause <;> rfl

namespace LexError.Cause

/-- Such a fault stands inside its token; the others stand where the token starts. -/
def isInner : Cause → Bool
  | invalidEscape _ => true
  | _ => false

/-- How the text goes on from an error: `part` was taken, and `rest` is left. -/
def Describes (cause : Cause) (part rest : List Char) : Prop :=
  match cause with
  | unrecognizedCharacter c => part = [c]
  | unrecognizedOperator text => part = text.toList ∧ ∀ c ∈ rest.head?, [c] ≠ text.toList
  | malformedNumber text => part = text.toList ∧ ∀ c ∈ rest.head?, ¬isDigit c
  | numberOverflow text =>
    part = text.toList ∧ (∀ c ∈ rest.head?, ¬isDigit c) ∧ ('.' ∉ text.toList → '.' ∉ rest.head?)
  | invalidEscape letter => part = ['\\', letter]
  | unterminatedString => part.head? = some '"' ∧ rest = []
  | literalTooLong _ => True
  | streamRead _ => False

end LexError.Cause

/-- The fault stands in front of the last part of what was taken, and is about this part. -/
structure Fault.Fits (fault : Fault) (taken rest : List Char) : Prop where
  inner : fault.cause.isInner = true ↔ fault.before ≠ []
  part : ∃ part, fault.before ++ part = taken ∧ fault.cause.Describes part rest

namespace Reading

variable {α β : Type} {limit : Option Nat} {behind rest : List Char} {c : Char}

/-- The fault of a reading behind these characters of its token, if it has one, fits. -/
def Blames (behind : List Char) (reading : Reading α) : Prop :=
  ∀ fault, reading.result = .error fault → fault.Fits (behind ++ reading.taken) reading.rest

/-- The only operators that have to be doubled are no operators by themselves. -/
theorem partner_of_unspelled (h : isOperatorStart c)
    (hnone : Operator.ofSpelling? (String.ofList [c]) = none) : Reading.partner? c = some c := by
  simp only [isOperatorStart, List.contains_eq_mem, List.mem_cons, List.not_mem_nil, or_false,
    decide_eq_true_eq] at h
  revert hnone
  rcases h with rfl | rfl | rfl | rfl | rfl | rfl | rfl | rfl | rfl | rfl | rfl <;> decide +kernel

namespace Blames

variable {reading : Reading α}

theorem done (a : α) (rest : List Char) : (Reading.done a rest).Blames behind := nofun

theorem fail {cause : LexError.Cause} (hinner : cause.isInner = false)
    (h : cause.Describes behind rest) : (Reading.fail cause rest : Reading α).Blames behind := by
  rintro fault ⟨⟩
  exact ⟨by simp [hinner], behind, (List.append_nil behind).symm, h⟩

theorem push (h : reading.Blames (behind ++ [c])) : (reading.push c).Blames behind := by
  intro fault hfault
  have hfits := h fault hfault
  rwa [List.append_assoc] at hfits

theorem bind {next : α → List Char → Reading β} (h : reading.Blames behind)
    (hnext : ∀ a, reading.result = .ok a →
      (next a reading.rest).Blames (behind ++ reading.taken)) :
    (reading.bind next).Blames behind := by
  obtain ⟨fault | a, taken, rest⟩ := reading
  · rintro fault' ⟨⟩
    exact h fault rfl
  · intro fault hfault
    have hfits := hnext a rfl fault hfault
    rwa [List.append_assoc] at hfits

theorem map (h : reading.Blames behind) (f : α → β) : (reading.map f).Blames behind :=
  h.bind fun _ _ => done _ _

theorem check (limit : Option Nat) (length : Nat) (rest : List Char) :
    (Reading.check limit length rest).Blames behind := by
  simp only [Reading.check]
  split
  · exact done () rest
  · split
    · exact fail rfl trivial
    · exact done () rest

theorem check_bind {length : Nat} {next : Reading β} (h : next.Blames behind) :
    ((Reading.check limit length rest).bind fun _ _ => next).Blames behind := by
  apply (check limit length rest).bind
  intro _ _
  rwa [check_taken, List.append_nil]

theorem accept {expected : Char} {text : List Char} {yes : List Char → Reading α}
    {no : Reading α}
    (hyes : ∀ rest, text = expected :: rest → (yes rest).Blames (behind ++ [expected]))
    (hno : expected ∉ text.head? → no.Blames behind) :
    (Reading.accept expected text yes no).Blames behind := by
  by_cases hhead : expected ∈ text.head?
  · obtain ⟨rest, rfl⟩ := List.head?_eq_some_iff.mp hhead
    rw [accept_of_head]
    exact (hyes rest rfl).push
  · rw [accept_of_not hhead]
    exact hno hhead

theorem span (p : Char → Bool) (count : Nat) (text : List Char) :
    (Reading.span limit p count text).Blames behind := by
  induction text generalizing behind count with
  | nil => exact done _ _
  | cons c rest ih =>
    simp only [Reading.span]
    split
    · exact (check_bind ((ih _).map _)).push
    · exact done _ _

/-- What a run that succeeds leaves is read behind the run, and does not start with its class. -/
theorem span_bind {p : Char → Bool} {count : Nat} {text : List Char}
    {next : List Char → List Char → Reading β}
    (hnext : ∀ run left, (∀ c ∈ left.head?, ¬p c) → (next run left).Blames (behind ++ run)) :
    ((Reading.span limit p count text).bind next).Blames behind := by
  apply (span p count text).bind
  intro run hrun
  have hspan := span_eq_of_ok hrun
  rw [hspan] at hrun ⊢
  cases hrun
  exact hnext _ _ fun c => not_class_of_head

/-! ## Strings -/

theorem escaped {before : List Char} (hbefore : before ≠ []) (letter : Char) (rest : List Char) :
    (Reading.escaped before letter rest).Blames (before ++ ['\\']) := by
  apply push
  split
  · rintro fault ⟨⟩
    exact ⟨by simp [LexError.Cause.isInner, hbefore], ['\\', letter], by simp, rfl⟩
  · exact done _ _

theorem content (hquote : behind.head? = some '"') (count : Nat) (text : List Char) :
    (Reading.content limit behind count text).Blames behind := by
  have hlonger : ∀ {before : List Char} (more : List Char), before.head? = some '"' →
      (before ++ more).head? = some '"' := fun more hbefore => by
    rw [List.head?_append, hbefore]
    rfl
  fun_induction Reading.content limit behind count text with
  | case1 => exact fail rfl ⟨hquote, rfl⟩
  | case2 => exact (done _ _).push
  | case3 => exact push (fail rfl ⟨hlonger _ hquote, rfl⟩)
  | case4 behind count letter rest _ ih =>
    have hbehind : behind ≠ [] := fun hnil => by simp [hnil] at hquote
    apply push
    apply (escaped hbehind letter rest).bind
    intro meaning _
    rw [escaped_taken, List.append_assoc]
    exact check_bind ((ih (hlonger _ hquote)).map _)
  | case5 behind count c rest _ _ ih => exact (check_bind ((ih (hlonger _ hquote)).map _)).push

/-! ## Numbers -/

theorem ofDigits {digits : List Char} (hdigit : ∀ c ∈ rest.head?, ¬isDigit c)
    (hpoint : '.' ∉ rest.head?) : (Reading.ofDigits digits rest).Blames digits := by
  simp only [Reading.ofDigits]
  split
  · exact done _ _
  · exact fail rfl ⟨String.toList_ofList.symm, hdigit, fun _ => hpoint⟩

theorem ofFloat {text : List Char} (hdigit : ∀ c ∈ rest.head?, ¬isDigit c) (hpoint : '.' ∈ text)
    (value : Option Binary32) : (Reading.ofFloat text value rest).Blames text := by
  cases value with
  | some value => exact done _ _
  | none =>
    refine fail rfl ⟨String.toList_ofList.symm, hdigit, fun hnone => ?_⟩
    rw [String.toList_ofList] at hnone
    exact absurd hpoint hnone

theorem fraction (whole rest : List Char) :
    (Reading.fraction limit whole rest).Blames (whole ++ ['.']) := by
  simp only [Reading.fraction]
  split
  · apply span_bind
    intro digits left hleft
    rw [List.append_assoc]
    exact ofFloat hleft (by simp) _
  · rename_i hnone
    refine fail rfl ⟨String.toList_ofList.symm, fun c hc hdigit => hnone ?_⟩
    rw [Option.mem_def.mp hc]
    exact hdigit

theorem number (text : List Char) : (Reading.number limit text).Blames [] := by
  apply span_bind
  intro whole left hleft
  exact accept (fun rest _ => fraction whole rest) (ofDigits hleft)

/-! ## Operators -/

theorem ofSpelling {text : List Char}
    (h : Operator.ofSpelling? (String.ofList text) = none → ∀ c ∈ rest.head?, [c] ≠ text) :
    (Reading.ofSpelling text rest).Blames text := by
  simp only [Reading.ofSpelling]
  split
  · exact done _ _
  · rename_i hnone
    refine fail rfl ⟨String.toList_ofList.symm, ?_⟩
    rw [String.toList_ofList]
    exact h hnone

theorem of_behind {taken : List Char} (h : reading.Blames taken) :
    (Reading.behind taken reading).Blames [] := h

theorem operator (hstart : isOperatorStart c) (rest : List Char) :
    (Reading.operator c rest).Blames [] := by
  by_cases hpartner : ∃ d ∈ rest.head?, Reading.partner? c = some d
  · obtain ⟨d, hhead, hd⟩ := hpartner
    obtain ⟨tail, rfl⟩ := List.head?_eq_some_iff.mp hhead
    rw [operator_of_partner hd]
    exact of_behind (ofSpelling fun _ _ _ => nofun)
  · rw [operator_of_not fun d hd hc => hpartner ⟨d, hd, hc⟩]
    refine of_behind (ofSpelling fun hnone d hd hsame => ?_)
    cases hsame
    exact hpartner ⟨_, hd, partner_of_unspelled hstart hnone⟩

/-! ## Tokens -/

theorem token (limit : Option Nat) (c : Char) (rest : List Char) :
    (Reading.token limit c rest).Blames [] := by
  simp only [Reading.token]
  split
  · exact ((content rfl _ _).map _).push
  · split
    · exact number _
    · split
      · exact (span _ _ _).map _
      · split
        · rename_i hstart
          exact operator hstart rest
        · exact push (fail rfl rfl)

end Blames

/-! ## No fault of the stream -/

def Textual (reading : Reading α) : Prop :=
  ∀ fault, reading.result = .error fault → fault.cause.isStream = false

theorem Blames.textual {reading : Reading α} (h : reading.Blames behind) : reading.Textual := by
  intro fault hfault
  obtain ⟨-, part, -, hdescribes⟩ := h fault hfault
  cases hcause : fault.cause with
  | streamRead error =>
    rw [hcause] at hdescribes
    exact hdescribes.elim
  | _ => rfl

theorem Textual.token (limit : Option Nat) (c : Char) (rest : List Char) :
    (Reading.token limit c rest).Textual := (Blames.token limit c rest).textual

theorem Textual.blanks (text : List Char) : (Reading.blanks text).Textual := by
  rw [blanks_eq]
  nofun

end Reading

end StreamLexer
