import StreamLexer.Proofs.Grammar.Token
import StreamLexer.Proofs.Scan.Lookahead

/-! # Readings under a limit

A limit changes a reading in one way only: where the literal is too long, the reading is faulted for
that, at the start of the token. This is kept by the ways in which readings are put together. Of a
lexeme it depends on its length alone which of the two it is.
-/

set_option autoImplicit false

namespace StreamLexer

open CharClass Grammar

namespace Reading

variable {α β : Type} {n : Nat}

/-- The limited reading is the free one, or it is faulted for its length. -/
def Curbed (n : Nat) (limited free : Reading α) : Prop :=
  limited = free ∨ limited.result = .error ⟨.literalTooLong n, []⟩

namespace Curbed

variable {limited free : Reading α}

theorem refl (reading : Reading α) : Curbed n reading reading := .inl rfl

theorem push (h : Curbed n limited free) (c : Char) : Curbed n (limited.push c) (free.push c) := by
  rcases h with rfl | hlong
  · exact refl _
  · exact .inr hlong

theorem bind {next next' : α → List Char → Reading β} (h : Curbed n limited free)
    (hnext : ∀ a, Curbed n (next a free.rest) (next' a free.rest)) :
    Curbed n (limited.bind next) (free.bind next') := by
  rcases h with rfl | hlong
  · obtain ⟨fault | a, taken, rest⟩ := limited
    · exact refl _
    · rcases hnext a with heq | hlong
      · exact .inl (congrArg (Reading.behind taken) heq)
      · exact .inr hlong
  · obtain ⟨result, taken, rest⟩ := limited
    cases hlong
    exact .inr rfl

theorem map (h : Curbed n limited free) (f : α → β) : Curbed n (limited.map f) (free.map f) :=
  h.bind fun _ => refl _

theorem check_bind (h : Curbed n limited free) (length : Nat) (rest : List Char) :
    Curbed n ((check (some n) length rest).bind fun _ _ => limited)
      ((check none length rest).bind fun _ _ => free) := by
  by_cases hlength : n < length
  · right
    rw [check_of_long hlength]
    rfl
  · have hcheck : check (some n) length rest = done () rest := if_neg hlength
    rw [hcheck]
    exact h

theorem accept {yes yes' : List Char → Reading α} (hyes : ∀ rest, Curbed n (yes rest) (yes' rest))
    (hno : Curbed n limited free) (expected : Char) (text : List Char) :
    Curbed n (accept expected text yes limited) (accept expected text yes' free) := by
  by_cases hhead : expected ∈ text.head?
  · obtain ⟨rest, rfl⟩ := List.head?_eq_some_iff.mp hhead
    rw [accept_of_head, accept_of_head]
    exact (hyes rest).push expected
  · rw [accept_of_not hhead, accept_of_not hhead]
    exact hno

theorem span (p : Char → Bool) (count : Nat) (text : List Char) :
    Curbed n (span (some n) p count text) (span none p count text) := by
  induction text generalizing count with
  | nil => exact refl _
  | cons c rest ih =>
    simp only [Reading.span]
    split
    · exact (((ih (count + 1)).map _).check_bind (count + 1) rest).push c
    · exact refl _

theorem content (before : List Char) (count : Nat) (text : List Char) :
    Curbed n (content (some n) before count text) (content none before count text) := by
  fun_induction Reading.content none before count text with
  | case1 before count => exact refl _
  | case2 before count rest =>
    rw [content_quote]
    exact refl _
  | case3 before count => exact refl _
  | case4 before count letter rest _ ih =>
    rw [content_escape]
    apply push
    apply (refl (escaped before letter rest)).bind
    intro meaning
    exact (ih.map _).check_bind _ _
  | case5 before count c rest hquote hescape ih =>
    rw [content_plain hquote hescape]
    exact ((ih.map _).check_bind _ _).push c

theorem fraction (whole rest : List Char) :
    Curbed n (fraction (some n) whole rest) (fraction none whole rest) := by
  simp only [Reading.fraction]
  split
  · exact (span _ _ _).bind fun digits => refl _
  · exact refl _

theorem number (text : List Char) : Curbed n (number (some n) text) (number none text) := by
  apply (span _ _ _).bind
  intro whole
  exact accept (fraction whole) (refl _) '.' _

theorem token (c : Char) (rest : List Char) :
    Curbed n (token (some n) c rest) (token none c rest) := by
  simp only [Reading.token]
  split
  · exact ((content ['"'] 0 rest).map _).push '"'
  · split
    · exact number (c :: rest)
    · split
      · exact (span _ _ _).map _
      · exact refl _

end Curbed

/-- A lexeme that fits is read as without a limit; any other one is faulted for its length. -/
theorem token_of_fits {c : Char} {rest : List Char} {token : Token}
    (h : (Reading.token none c rest).result = .ok token) :
    let free := Reading.token none c rest
    let limited := Reading.token (some n) c rest
    (Fits (some n) free.taken token → limited = free) ∧
      (¬Fits (some n) free.taken token → limited.result = .error ⟨.literalTooLong n, []⟩) := by
  intro free limited
  constructor
  · intro hfits
    have hcovers : free.Covers [] (c :: rest) := .token none c
    obtain ⟨hdenotes, -, hends⟩ := token_recognizes h
    obtain ⟨tail, htaken⟩ := exists_taken none c rest
    have hrest : rest = tail ++ free.rest := by
      have hsplit := hcovers.split
      rw [htaken] at hsplit
      exact (List.cons_eq_cons.mp hsplit).2.symm
    rw [htaken] at hdenotes hfits
    calc
      limited = Reading.token (some n) c (tail ++ free.rest) :=
        congrArg (Reading.token (some n) c) hrest
      _ = ⟨.ok token, c :: tail, free.rest⟩ := token_append hdenotes hfits hends
      _ = free := by rw [← htaken, ← h]
  · intro hlong
    rcases Curbed.token c rest with heq | hfault
    · refine absurd ?_ hlong
      have hread : limited.result = .ok token := by rw [← h]; exact congrArg Reading.result heq
      obtain ⟨-, hfits, -⟩ := token_recognizes hread
      rwa [heq] at hfits
    · exact hfault

end Reading

end StreamLexer
