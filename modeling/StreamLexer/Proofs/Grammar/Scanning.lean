import Mathlib.Data.List.TakeWhile
import StreamLexer.Proofs.Grammar.Lexeme

/-! # Readings and lexemes

A reading that succeeds has taken a lexeme of its token, the longest there is; and in front of a
lexeme that is followed by nothing of its own, the reading takes that lexeme.
-/

set_option autoImplicit false

namespace StreamLexer

open CharClass Grammar

namespace Grammar

/-- What follows is no part of the lexeme, and not the point that makes an integer fail. -/
def Ends (token : Token) (rest : List Char) : Prop :=
  ∀ c ∈ rest.head?, ¬Absorbs token c ∧ ∀ value, token = .int value → c ≠ '.'

/-- The reading has taken a lexeme of the token. -/
structure Recognizes (limit : Option Nat) (reading : Reading Token) (token : Token) : Prop where
  denotes : Denotes reading.taken token
  fits : Fits limit reading.taken token
  ends : Ends token reading.rest

end Grammar

namespace Reading

variable {α : Type} {limit : Option Nat} {c : Char} {text rest taken : List Char} {token : Token}

theorem word_recognizes (hc : isWordStart c) (h : (word limit (c :: rest)).result = .ok token) :
    Recognizes limit (word limit (c :: rest)) token := by
  obtain ⟨run, hspan, rfl⟩ := ok_of_map h
  have hrun := List.takeWhile_cons_of_pos (l := rest) (isWordPart_of_start hc)
  have hallows := allows_of_span hspan (by rw [hrun]; exact List.cons_ne_nil _ _)
  have heq := span_eq_of_ok hspan
  rw [heq] at hspan
  cases hspan
  have hname : IsName ((c :: rest).takeWhile isWordPart) := by
    rw [hrun]
    exact ⟨hc, fun d hd => List.mem_takeWhile_imp hd⟩
  rw [Nat.zero_add] at hallows
  rw [word, heq, map_ok]
  refine ⟨denotes_ofWord hname, (fits_ofWord _ _ _).mpr hallows, ?_⟩
  intro d hd
  rw [absorbs_ofWord]
  exact ⟨not_class_of_head hd, fun value hint => absurd hint (ofWord_ne_int _ value)⟩

theorem word_append {name : List Char} (hname : IsName name) (hallows : Allows limit name.length)
    (hends : ∀ c ∈ rest.head?, ¬isWordPart c) :
    word limit (name ++ rest) = ⟨.ok (Token.ofWord name), name, rest⟩ := by
  rw [word, span_append hname.parts hends (by rwa [Nat.zero_add]), map_ok]

/-- A run that starts with a digit is a number, the longest there is. -/
theorem span_digits {count : Nat} {run : List Char} (hhead : text.head?.any isDigit)
    (h : (span limit isDigit count text).result = .ok run) :
    IsDigits run ∧ Allows limit (count + run.length) ∧ ∃ left, (∀ d ∈ left.head?, ¬isDigit d) ∧
      span limit isDigit count text = ⟨.ok run, run, left⟩ := by
  have hne : text.takeWhile isDigit ≠ [] := by
    cases text with
    | nil => cases hhead
    | cons c rest =>
      have hc : isDigit c := hhead
      rw [List.takeWhile_cons_of_pos hc]
      exact List.cons_ne_nil _ _
  have hallows := allows_of_span h hne
  have heq := span_eq_of_ok h
  rw [heq] at h
  cases h
  exact ⟨⟨hne, fun d hd => List.mem_takeWhile_imp hd⟩, hallows, _, fun d => not_class_of_head, heq⟩

theorem escaped_ok {before : List Char} {letter meaning : Char}
    (h : (escaped before letter rest).result = .ok meaning) :
    Escape.meaningOf? letter = some meaning := by
  cases hmeaning : Escape.meaningOf? letter with
  | none => simp [escaped, hmeaning, push] at h
  | some found =>
    simp only [escaped, hmeaning, push, done, Except.ok.injEq] at h
    rw [h]

theorem escaped_of_meaning {before : List Char} {letter meaning : Char}
    (h : Escape.meaningOf? letter = some meaning) :
    escaped before letter rest = ⟨.ok meaning, [letter], rest⟩ := by
  rw [escaped, h]
  rfl

theorem ok_of_check_bind {length : Nat} {next : Reading α} {a : α}
    (h : ((check limit length rest).bind fun _ _ => next).result = .ok a) :
    Allows limit length ∧ next.result = .ok a ∧
      ((check limit length rest).bind fun _ _ => next) = next := by
  obtain ⟨⟨⟩, hcheck, hnext⟩ := ok_of_bind h
  have hallows := allows_of_check hcheck
  refine ⟨hallows, hnext, ?_⟩
  rw [check_of_allows hallows]
  rfl

/-- The content of a string ends at the first quote that is no part of an escape. -/
theorem content_ok {before decoded : List Char} {count : Nat}
    (h : (content limit before count text).result = .ok decoded) (hcount : Allows limit count) :
    ∃ body, Body body decoded ∧ Allows limit (count + decoded.length) ∧
      (content limit before count text).taken = body ++ ['"'] := by
  fun_induction content limit before count text generalizing decoded with
  | case1 before count => cases h
  | case2 before count rest =>
    cases h
    exact ⟨[], .nil, hcount, rfl⟩
  | case3 before count => cases h
  | case4 before count letter rest hquote ih =>
    obtain ⟨meaning, hescaped, hlater⟩ := ok_of_bind h
    have hmeaning := escaped_ok hescaped
    obtain ⟨hallows, hmap, heq⟩ := ok_of_check_bind hlater
    obtain ⟨tail, hcontent, rfl⟩ := ok_of_map hmap
    obtain ⟨body, hbody, hlength, htaken⟩ := ih hcontent hallows
    refine ⟨'\\' :: letter :: body, .escape (meaningOf?_eq_some_iff.mp hmeaning) hbody, ?_, ?_⟩
    · rw [List.length_cons]
      exact hlength.mono (by omega)
    · rw [escaped_of_meaning hmeaning, bind_ok, heq]
      simp only [push_taken, behind, map_taken, htaken, List.cons_append, List.nil_append]
  | case5 before count c rest hquote hescape ih =>
    obtain ⟨hallows, hmap, heq⟩ := ok_of_check_bind h
    obtain ⟨tail, hcontent, rfl⟩ := ok_of_map hmap
    obtain ⟨body, hbody, hlength, htaken⟩ := ih hcontent hallows
    refine ⟨c :: body, .plain hquote hescape hbody, ?_, ?_⟩
    · rw [List.length_cons]
      exact hlength.mono (by omega)
    · rw [heq, push_taken, map_taken, htaken, List.cons_append]

theorem string_recognizes (h : (string limit rest).result = .ok token) :
    Recognizes limit (string limit rest) token := by
  obtain ⟨decoded, hcontent, rfl⟩ := ok_of_map h
  have hzero : Allows limit 0 := fun _ _ => Nat.zero_le _
  obtain ⟨body, hbody, hlength, htaken⟩ := content_ok hcontent hzero
  rw [Nat.zero_add] at hlength
  refine ⟨?_, ?_, fun c _ => ⟨id, fun _ hint => nomatch hint⟩⟩
  · rw [string, push_taken, map_taken, htaken]
    exact .string hbody
  · rw [Fits, String.length_ofList]
    exact hlength

end Reading

end StreamLexer
