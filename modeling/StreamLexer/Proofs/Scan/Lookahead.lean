import StreamLexer.Proofs.Scan.Coverage
import StreamLexer.Proofs.Scan.Span

/-! # What a reading looks at

A reading is decided by the characters that it takes and by one character behind them; whatever
stands behind that one can be exchanged. Where the text ends, a blank can follow as well: no lexeme
goes on with a blank, except a string that is not closed. Both are kept by the ways in which
readings are put together.
-/

set_option autoImplicit false

namespace StreamLexer

open CharClass
open LexError (Cause)

def LexError.Cause.isOpen : Cause → Bool
  | .unterminatedString => true
  | _ => false

namespace CharClass

variable {c : Char}

theorem not_digit_of_blank (h : isBlank c = true) : isDigit c = false := by
  simp only [isBlank, Bool.or_eq_true, decide_eq_true_eq] at h
  rcases h with ((rfl | rfl) | rfl) | rfl <;> decide

theorem not_wordPart_of_blank (h : isBlank c = true) : isWordPart c = false := by
  simp only [isBlank, Bool.or_eq_true, decide_eq_true_eq] at h
  rcases h with ((rfl | rfl) | rfl) | rfl <;> decide

theorem not_blank_of_partner {second : Char} (h : Reading.partner? c = some second) :
    isBlank second = false := by
  simp only [Reading.partner?] at h
  split at h <;> cases h <;> decide

end CharClass

/-- What can stand in place of the rest of a text: what starts with the same character, or with a
blank where nothing is left, if the lexeme before it is `closed`. -/
inductive Exchange (closed : Prop) (rest later : List Char) : Prop where
  | alike (h : later.head? = rest.head?) : Exchange closed rest later
  | blank {c : Char} (hrest : rest = []) (hlater : later.head? = some c)
      (hblank : isBlank c = true) (hclosed : closed) : Exchange closed rest later

namespace Exchange

variable {closed other : Prop} {rest later : List Char}

theorem imp (h : Exchange closed rest later) (hclosed : closed → other) :
    Exchange other rest later := by
  cases h with
  | alike hhead => exact .alike hhead
  | blank hrest hlater hblank h => exact .blank hrest hlater hblank (hclosed h)

theorem append_left (h : Exchange closed rest later) (before : List Char) :
    Exchange closed (before ++ rest) (before ++ later) := by
  cases before with
  | nil => exact h
  | cons c before => exact .alike rfl

end Exchange

namespace Reading

variable {α β : Type}

/-- A string that is not closed ends with the text only. -/
def Closed (reading : Reading α) : Prop :=
  ∀ fault, reading.result = .error fault → fault.cause.isOpen = false

abbrev Admits (reading : Reading α) (later : List Char) : Prop :=
  Exchange reading.Closed reading.rest later

theorem Admits.imp {reading : Reading α} {other : Reading β} {later : List Char}
    (h : reading.Admits later) (hrest : other.rest = reading.rest)
    (hresult : ∀ fault, other.result = .error fault → reading.result = .error fault) :
    other.Admits later := by
  rw [Admits, hrest]
  exact Exchange.imp h fun hclosed fault hfault => hclosed fault (hresult fault hfault)

/-- The reading of `text` stays the same in front of all that its rest can be exchanged for. It
takes the characters `front` before the text. -/
def Local (front : List Char) (read : List Char → Reading α) (text : List Char) : Prop :=
  ∀ later, (read text).Admits later →
    ∃ tail, (read text).taken = front ++ tail ∧
      read (tail ++ later) = { read text with rest := later }

/-- The same result on every text, with nothing taken. -/
def Still (read : List Char → Reading α) : Prop :=
  ∃ result, ∀ text, read text = ⟨result, [], text⟩

theorem still_done (a : α) : Still (done a) := ⟨.ok a, fun _ => rfl⟩

theorem still_fail (cause : Cause) : Still (fail cause : List Char → Reading α) :=
  ⟨.error ⟨cause, []⟩, fun _ => rfl⟩

theorem still_check (limit : Option Nat) (length : Nat) : Still (check limit length) := by
  cases limit with
  | none => exact still_done ()
  | some bound =>
    by_cases h : bound < length
    · exact ⟨_, fun text => if_pos h⟩
    · exact ⟨_, fun text => if_neg h⟩

theorem still_ofDigits (digits : List Char) : Still (ofDigits digits) := by
  by_cases h : Decimal.value digits ≤ 0x7FFFFFFF
  · exact ⟨_, fun text => if_pos h⟩
  · exact ⟨_, fun text => if_neg h⟩

theorem still_ofFloat (text : List Char) (value : Option Binary32) :
    Still fun rest => ofFloat text value rest := by
  cases value with
  | none => exact still_fail _
  | some value => exact still_done _

theorem still_ofSpelling (text : List Char) : Still (ofSpelling text) := by
  cases h : Operator.ofSpelling? (String.ofList text) with
  | none => exact ⟨_, fun rest => by rw [ofSpelling, h]; rfl⟩
  | some operator => exact ⟨_, fun rest => by rw [ofSpelling, h]; rfl⟩

theorem Still.split {read : List Char → Reading α} (h : Still read) (text : List Char) :
    (read text).taken ++ (read text).rest = text := by
  obtain ⟨result, hread⟩ := h
  rw [hread, List.nil_append]

namespace Local

variable {front text : List Char} {read : List Char → Reading α} {c : Char}

theorem congr {other : List Char → Reading α} (h : Local front read text)
    (heq : ∀ t, other t = read t) : Local front other text := by
  obtain rfl : other = read := funext heq
  exact h

theorem of_still (h : Still read) : Local [] read text := by
  obtain ⟨result, hread⟩ := h
  intro later _
  exact ⟨[], by rw [hread, List.nil_append], by rw [List.nil_append, hread, hread]⟩

theorem push (h : Local front read text) (c : Char) :
    Local (c :: front) (fun t => (read t).push c) text := by
  intro later hadmits
  obtain ⟨tail, htaken, hread⟩ := h later (hadmits.imp rfl fun _ hfault => hfault)
  refine ⟨tail, congrArg (c :: ·) htaken, ?_⟩
  dsimp only
  rw [hread]
  rfl

theorem of_front (front : List Char) (h : Local front (fun t => read (front ++ t)) text) :
    Local [] read (front ++ text) := by
  intro later hadmits
  obtain ⟨tail, htaken, hread⟩ := h later hadmits
  refine ⟨front ++ tail, htaken, ?_⟩
  rw [List.append_assoc]
  exact hread

/-- The second reading starts with the first character that the first one leaves, so it matters to
the first only if the second takes nothing. -/
theorem bind {next : α → List Char → Reading β} (h : Local front read text)
    (hnext : ∀ a, Local [] (next a) (read text).rest)
    (hsplit : ∀ a, (next a (read text).rest).taken ++ (next a (read text).rest).rest =
      (read text).rest) :
    Local front (fun t => (read t).bind next) text := by
  intro later hadmits
  dsimp only at hadmits ⊢
  generalize hreading : read text = reading at h hnext hsplit hadmits ⊢
  obtain ⟨fault | a, taken, rest⟩ := reading
  · have hinner : (read text).Admits later := by
      rw [hreading]
      refine hadmits.imp rfl fun fault hfault => ?_
      cases hfault
      rfl
    obtain ⟨tail, htaken, hread⟩ := h later hinner
    rw [hreading] at htaken hread
    refine ⟨tail, htaken, ?_⟩
    rw [hread]
    rfl
  · have hlast : (next a rest).Admits later := hadmits
    obtain ⟨tail', htaken', hread'⟩ := hnext a later hlast
    rw [List.nil_append] at htaken'
    have hinner : (read text).Admits (tail' ++ later) := by
      have hrest : tail' ++ (next a rest).rest = rest := htaken' ▸ hsplit a
      have hafter := hlast.append_left tail'
      rw [hrest] at hafter
      rw [hreading]
      exact hafter.imp fun _ => nofun
    obtain ⟨tail, htaken, hread⟩ := h _ hinner
    rw [hreading] at htaken hread
    dsimp only at htaken hread
    refine ⟨tail ++ tail', ?_, ?_⟩
    · change taken ++ (next a rest).taken = _
      rw [htaken, htaken', List.append_assoc]
    · rw [List.append_assoc, hread, bind_ok, hread']
      rfl

theorem map (h : Local front read text) (f : α → β) :
    Local front (fun t => (read t).map f) text :=
  h.bind (fun a => of_still (still_done (f a))) fun _ => rfl

theorem bind_of_still {next : α → List Char → Reading β} (h : Still read)
    (hnext : ∀ a, Local [] (next a) text) :
    Local [] (fun t => (read t).bind fun a _ => next a t) text := by
  obtain ⟨result, hread⟩ := h
  cases result with
  | error fault =>
    refine of_still ⟨.error fault, fun t => ?_⟩
    dsimp only
    rw [hread]
    rfl
  | ok a =>
    refine (hnext a).congr fun t => ?_
    rw [hread]
    rfl

theorem accept {expected : Char} {yes no : List Char → Reading α}
    (hexpected : isBlank expected = false) (hyes : ∀ rest, Local [] yes rest) (hno : Still no) :
    Local [] (fun t => Reading.accept expected t yes (no t)) text := by
  obtain ⟨result, hread⟩ := hno
  by_cases hhead : expected ∈ text.head?
  · obtain ⟨rest, rfl⟩ := List.head?_eq_some_iff.mp hhead
    refine of_front [expected] (((hyes rest).push expected).congr fun t => ?_)
    exact accept_of_head expected t yes _
  · intro later hadmits
    dsimp only at hadmits ⊢
    rw [accept_of_not hhead, hread] at hadmits ⊢
    have hlater : expected ∉ later.head? := by
      cases hadmits with
      | alike hsame => rwa [hsame]
      | blank hrest hlater hblank hclosed =>
        rw [hlater]
        rintro ⟨⟩
        rw [hexpected] at hblank
        cases hblank
    refine ⟨[], rfl, ?_⟩
    rw [List.nil_append, accept_of_not hlater, hread]

section Span

variable {limit : Option Nat} {p : Char → Bool}

theorem span_step {count : Nat} (hc : p c = true)
    (h : Local [] (Reading.span limit p (count + 1)) text) :
    Local [c] (fun t => Reading.span limit p count (c :: t)) text := by
  have hlonger : Local [] (fun t => (Reading.check limit (count + 1) t).bind fun _ _ =>
      (Reading.span limit p (count + 1) t).map (c :: ·)) text :=
    bind_of_still (still_check limit (count + 1)) fun _ => h.map (c :: ·)
  exact (hlonger.push c).congr fun t => if_pos hc

variable (hp : ∀ c, isBlank c = true → p c = false)
include hp

theorem span (count : Nat) : Local [] (Reading.span limit p count) text := by
  induction text generalizing count with
  | nil =>
    intro later hadmits
    refine ⟨[], rfl, span_of_takeWhile_nil ?_⟩
    cases hadmits with
    | alike hhead =>
      rw [List.head?_eq_none_iff.mp hhead]
      rfl
    | blank hrest hlater hblank hclosed =>
      obtain ⟨rest, rfl⟩ := List.head?_eq_some_iff.mp hlater
      exact List.takeWhile_cons_of_neg (by simp [hp _ hblank])
  | cons c rest ih =>
    cases hc : p c with
    | true => exact of_front [c] (span_step hc (ih (count + 1)))
    | false =>
      have hread : ∀ rest, Reading.span limit p count (c :: rest) = Reading.done [] (c :: rest) :=
        fun rest => if_neg (by simp [hc])
      intro later hadmits
      rw [hread] at hadmits ⊢
      refine ⟨[], rfl, ?_⟩
      cases hadmits with
      | alike hhead =>
        obtain ⟨rest', rfl⟩ := List.head?_eq_some_iff.mp hhead
        exact hread rest'
      | blank hrest hlater hblank hclosed => cases hrest

end Span

/-! ## Literals -/

theorem escaped_bind {next : Char → List Char → Reading β} {before : List Char} {letter : Char}
    (hnext : ∀ meaning, Local [] (next meaning) text) :
    Local [letter] (fun t => (Reading.escaped before letter t).bind fun meaning _ =>
      next meaning t) text := by
  cases h : Escape.meaningOf? letter with
  | none =>
    have hstill : Still fun t => (⟨.error ⟨.invalidEscape letter, before⟩, [], t⟩ : Reading β) :=
      ⟨_, fun _ => rfl⟩
    refine ((of_still hstill).push letter).congr fun t => ?_
    simp only [Reading.escaped, h]
    rfl
  | some meaning =>
    refine ((hnext meaning).push letter).congr fun t => ?_
    simp only [Reading.escaped, h]
    rfl

theorem content (limit : Option Nat) (before : List Char) (count : Nat) :
    Local [] (Reading.content limit before count) text := by
  induction before, count, text using Reading.content.induct with
  | case1 before count =>
    -- An end of the text within a string can be exchanged for nothing else.
    intro later hadmits
    cases hadmits with
    | alike hhead =>
      obtain rfl := List.head?_eq_none_iff.mp hhead
      exact ⟨[], rfl, rfl⟩
    | blank hrest hlater hblank hclosed => cases hclosed _ rfl
  | case2 before count rest =>
    exact of_front ['"'] (((of_still (still_done [])).push '"').congr fun t => content_quote)
  | case3 before count =>
    intro later hadmits
    cases hadmits with
    | alike hhead =>
      obtain rfl := List.head?_eq_none_iff.mp hhead
      exact ⟨['\\'], rfl, rfl⟩
    | blank hrest hlater hblank hclosed => cases hclosed _ rfl
  | case4 before count letter rest _ ih =>
    have helement : Local [letter] (fun t => (Reading.escaped before letter t).bind
        fun meaning _ => (Reading.check limit (count + 1) t).bind fun _ _ =>
          (Reading.content limit (before ++ ['\\', letter]) (count + 1) t).map (meaning :: ·))
        rest :=
      escaped_bind fun meaning =>
        bind_of_still (still_check limit (count + 1)) fun _ => ih.map (meaning :: ·)
    exact of_front ['\\', letter] ((helement.push '\\').congr fun t => content_escape)
  | case5 before count c rest hquote hescape ih =>
    have helement : Local [] (fun t => (Reading.check limit (count + 1) t).bind fun _ _ =>
        (Reading.content limit (before ++ [c]) (count + 1) t).map (c :: ·)) rest :=
      bind_of_still (still_check limit (count + 1)) fun _ => ih.map (c :: ·)
    exact of_front [c] ((helement.push c).congr fun t => content_plain hquote hescape)

theorem string (limit : Option Nat) : Local ['"'] (Reading.string limit) text :=
  ((content limit ['"'] 0).map fun decoded => Token.string (String.ofList decoded)).push '"'

theorem fraction (limit : Option Nat) (whole : List Char) :
    Local [] (Reading.fraction limit whole) text := by
  by_cases hdigit : text.head?.any isDigit
  · obtain ⟨d, hhead, hd⟩ := (Option.any_eq_true _ _).mp hdigit
    obtain ⟨rest, rfl⟩ := List.head?_eq_some_iff.mp hhead
    -- Both arguments are written out, lest the conversion of the decimal be unfolded.
    have hdigits : Local [d] (fun t =>
        (Reading.span limit isDigit (whole.length + 1) (d :: t)).bind fun digits left =>
          Reading.ofFloat (whole ++ '.' :: digits) (Binary32.ofDecimal? whole digits) left) rest :=
      (span_step hd (span (fun _ => not_digit_of_blank) _)).bind
        (fun _ => of_still (still_ofFloat _ _)) fun _ => (still_ofFloat _ _).split _
    refine of_front [d] (hdigits.congr fun t => ?_)
    rw [List.singleton_append, Reading.fraction, List.head?_cons, Option.any_some, if_pos hd]
  · have hfail : ∀ t, ¬t.head?.any isDigit → Reading.fraction limit whole t =
        Reading.fail (.malformedNumber (String.ofList (whole ++ ['.']))) t := by
      intro t ht
      rw [Reading.fraction, if_neg ht]
    intro later hadmits
    rw [hfail text hdigit] at hadmits ⊢
    refine ⟨[], rfl, hfail later ?_⟩
    cases hadmits with
    | alike hhead => rwa [hhead]
    | blank hrest hlater hblank hclosed => simp [hlater, not_digit_of_blank hblank]

theorem number (hc : isDigit c = true) (limit : Option Nat) :
    Local [c] (fun t => Reading.number limit (c :: t)) text := by
  refine (span_step hc (span (fun _ => not_digit_of_blank) 1)).bind (fun whole => ?_) fun whole => ?_
  · exact accept (by decide) (fun _ => fraction limit whole) (still_ofDigits whole)
  · exact (Covers.accept (fun _ _ => Covers.fraction _ _) (Covers.ofDigits whole) :
      Covers [] _ _).split

/-! ## Words and operators -/

theorem word (hc : isWordPart c = true) (limit : Option Nat) :
    Local [c] (fun t => Reading.word limit (c :: t)) text :=
  (span_step hc (span (fun _ => not_wordPart_of_blank) 1)).map Token.ofWord

theorem operatorText (c : Char) : Local [] (Reading.operatorText c) text := by
  cases hpartner : Reading.partner? c with
  | none => exact of_still ⟨_, fun t => by rw [Reading.operatorText, hpartner]; rfl⟩
  | some second =>
    refine (accept (not_blank_of_partner hpartner) (fun _ => of_still (still_done [c, second]))
      (still_done [c])).congr fun t => ?_
    rw [Reading.operatorText, hpartner]

theorem operator (c : Char) : Local [c] (Reading.operator c) text :=
  ((operatorText c).bind (fun spelling => of_still (still_ofSpelling spelling)) fun spelling =>
    (still_ofSpelling spelling).split _).push c

/-! ## Tokens -/

theorem token (limit : Option Nat) (c : Char) : Local [c] (Reading.token limit c) text := by
  by_cases hquote : c = '"'
  · subst hquote
    exact (string limit).congr fun t => if_pos rfl
  by_cases hdigit : isDigit c
  · exact (number hdigit limit).congr fun t => by rw [Reading.token, if_neg hquote, if_pos hdigit]
  by_cases hstart : isWordStart c
  · have hpart : isWordPart c := by simp [isWordPart, hstart]
    refine (word hpart limit).congr fun t => ?_
    rw [Reading.token, if_neg hquote, if_neg hdigit, if_pos hstart]
  by_cases hoperator : isOperatorStart c
  · refine (operator c).congr fun t => ?_
    rw [Reading.token, if_neg hquote, if_neg hdigit, if_neg hstart, if_pos hoperator]
  · refine ((of_still (still_fail (.unrecognizedCharacter c))).push c).congr fun t => ?_
    rw [Reading.token, if_neg hquote, if_neg hdigit, if_neg hstart, if_neg hoperator]

end Local

/-- A token takes the character that it starts with. -/
theorem exists_taken (limit : Option Nat) (c : Char) (rest : List Char) :
    ∃ tail, (token limit c rest).taken = c :: tail := by
  obtain ⟨tail, htaken, -⟩ := Local.token limit c (token limit c rest).rest (.alike rfl)
  exact ⟨tail, htaken⟩

end Reading

end StreamLexer
