import Mathlib.Logic.ExistsUnique
import StreamLexer.Proofs.Grammar.Scanning

/-! # Bodies of strings

A text behind an opening quote starts with one longest body. It is read element by element, and what
stops it decides how the string ends: it is closed, an escape in it stands for nothing, or the text
ends first.
-/

set_option autoImplicit false

namespace StreamLexer

namespace Grammar

variable {text body other left content : List Char}

/-- No element of a string starts here. -/
inductive Stops : List Char → Prop where
  | ended : Stops []
  | backslash : Stops ['\\']
  | quote (rest : List Char) : Stops ('"' :: rest)
  | escape {letter : Char} (rest : List Char) (hnone : Escape.meaningOf? letter = none) :
      Stops ('\\' :: letter :: rest)

/-- The longest body that the text starts with. -/
structure LongestBody (text body : List Char) : Prop where
  starts : body <+: text
  isBody : ∃ content, Body body content
  longest : ∀ other content, other <+: text → Body other content → other.length ≤ body.length

theorem exists_body (text : List Char) :
    ∃ body content left, body ++ left = text ∧ Body body content ∧ Stops left := by
  fun_induction Reading.content none [] 0 text with
  | case1 => exact ⟨[], [], [], rfl, .nil, .ended⟩
  | case2 before count rest => exact ⟨[], [], _, rfl, .nil, .quote rest⟩
  | case3 => exact ⟨[], [], _, rfl, .nil, .backslash⟩
  | case4 before count letter rest _ ih =>
    cases hmeaning : Escape.meaningOf? letter with
    | none => exact ⟨[], [], _, rfl, .nil, .escape rest hmeaning⟩
    | some meaning =>
      obtain ⟨body, content, left, rfl, hbody, hstops⟩ := ih
      have hentry := meaningOf?_eq_some_iff.mp hmeaning
      exact ⟨'\\' :: letter :: body, _, left, rfl, .escape hentry hbody, hstops⟩
  | case5 before count c rest hquote hescape ih =>
    obtain ⟨body, content, left, rfl, hbody, hstops⟩ := ih
    exact ⟨c :: body, _, left, rfl, .plain hquote hescape hbody, hstops⟩

theorem nil_of_stops (hother : Body other content) (hstops : Stops left) (h : other <+: left) :
    other = [] := by
  cases hother with
  | nil => rfl
  | plain hquote hescape =>
    cases hstops with
    | ended => cases List.prefix_nil.mp h
    | backslash => exact absurd (List.cons_prefix_cons.mp h).1 hescape
    | quote => exact absurd (List.cons_prefix_cons.mp h).1 hquote
    | escape => exact absurd (List.cons_prefix_cons.mp h).1 hescape
  | escape hentry =>
    cases hstops with
    | ended => cases List.prefix_nil.mp h
    | backslash => cases List.prefix_nil.mp (List.cons_prefix_cons.mp h).2
    | quote => cases (List.cons_prefix_cons.mp h).1
    | escape rest hnone =>
      obtain ⟨rfl, -⟩ := List.cons_prefix_cons.mp (List.cons_prefix_cons.mp h).2
      rw [meaningOf?_eq_some_iff.mpr hentry] at hnone
      cases hnone

/-- No body goes on where one is stopped. -/
theorem Body.length_le (h : Body body content) (hstops : Stops left) {content' : List Char}
    (hother : Body other content') (hfront : other <+: body ++ left) :
    other.length ≤ body.length := by
  induction h generalizing other content' with
  | nil => rw [nil_of_stops hother hstops hfront]
  | plain hquote hescape _ ih =>
    cases hother with
    | nil => exact Nat.zero_le _
    | plain _ _ htail => exact Nat.succ_le_succ (ih htail (List.cons_prefix_cons.mp hfront).2)
    | escape => exact absurd (List.cons_prefix_cons.mp hfront).1.symm hescape
  | escape hentry _ ih =>
    cases hother with
    | nil => exact Nat.zero_le _
    | plain _ hescape => exact absurd (List.cons_prefix_cons.mp hfront).1 hescape
    | escape _ htail =>
      have htails := (List.cons_prefix_cons.mp (List.cons_prefix_cons.mp hfront).2).2
      exact Nat.succ_le_succ (Nat.succ_le_succ (ih htail htails))

theorem longestBody_of_stops (h : Body body content) (hstops : Stops left) :
    LongestBody (body ++ left) body where
  starts := List.prefix_append _ _
  isBody := ⟨content, h⟩
  longest _ _ hfront hother := h.length_le hstops hother hfront

theorem LongestBody.eq (h : LongestBody text body) (hother : LongestBody text other) :
    body = other := by
  obtain ⟨content, hbody⟩ := h.isBody
  obtain ⟨content', hbody'⟩ := hother.isBody
  have hle := hother.longest body content h.starts hbody
  have hge := h.longest other content' hother.starts hbody'
  apply List.IsPrefix.eq_of_length
  · exact List.prefix_of_prefix_length_le h.starts hother.starts hle
  · exact Nat.le_antisymm hle hge

theorem existsUnique_longestBody (text : List Char) : ∃! body, LongestBody text body := by
  obtain ⟨body, content, left, rfl, hbody, hstops⟩ := exists_body text
  exact ⟨body, longestBody_of_stops hbody hstops,
    fun other hother => hother.eq (longestBody_of_stops hbody hstops)⟩

theorem LongestBody.stops (h : LongestBody text body) (hleft : body ++ left = text) :
    Stops left := by
  obtain ⟨body', content, left', rfl, hbody, hstops⟩ := exists_body text
  obtain rfl := h.eq (longestBody_of_stops hbody hstops)
  rwa [List.append_cancel_left hleft]

end Grammar

namespace Reading

open Grammar

variable {limit : Option Nat} {before body decoded rest : List Char} {count : Nat}

/-- A body is read to its end, and then what stands behind it. -/
theorem content_body (hbody : Body body decoded) (hallows : Allows limit (count + decoded.length))
    (left : List Char) :
    content limit before count (body ++ left) =
      behind body ((content limit (before ++ body) (count + decoded.length) left).map
        (decoded ++ ·)) := by
  induction hbody generalizing before count with
  | nil =>
    rw [List.nil_append, List.append_nil, List.length_nil, Nat.add_zero]
    generalize content limit before count left = reading
    obtain ⟨fault | a, taken, rest⟩ := reading
    · rfl
    · rw [map_ok]
      rfl
  | @plain c body decoded hquote hescape _ ih =>
    rw [List.length_cons] at hallows
    have hnow : Allows limit (count + 1) := hallows.mono (by omega)
    have hlater : Allows limit (count + 1 + decoded.length) := hallows.mono (by omega)
    rw [List.cons_append, content_plain hquote hescape, check_of_allows hnow, ih hlater,
      map_behind, map_map, List.append_assoc, Nat.add_assoc, Nat.add_comm 1]
    rfl
  | @escape meaning letter body decoded hentry _ ih =>
    rw [List.length_cons] at hallows
    have hnow : Allows limit (count + 1) := hallows.mono (by omega)
    have hlater : Allows limit (count + 1 + decoded.length) := hallows.mono (by omega)
    have hmeaning := meaningOf?_eq_some_iff.mpr hentry
    rw [List.cons_append, List.cons_append, content_escape, escaped_of_meaning hmeaning, bind_ok,
      check_of_allows hnow, ih hlater, map_behind, map_map, List.append_assoc, Nat.add_assoc,
      Nat.add_comm 1]
    rfl

theorem string_closed (hbody : Body body decoded) (hallows : Allows limit decoded.length) :
    string limit (body ++ '"' :: rest) =
      ⟨.ok (.string (String.ofList decoded)), '"' :: body ++ ['"'], rest⟩ := by
  rw [string, content_body hbody (by rwa [Nat.zero_add]), content_quote]
  simp only [push, done, map_ok, behind, List.append_nil, List.cons_append]

/-- An escape that stands for nothing is faulted where its backslash stands. -/
theorem string_escape {letter : Char} (hbody : Body body decoded)
    (hallows : Allows limit decoded.length) (hnone : Escape.meaningOf? letter = none) :
    string limit (body ++ '\\' :: letter :: rest) =
      ⟨.error ⟨.invalidEscape letter, '"' :: body⟩, '"' :: body ++ ['\\', letter], rest⟩ := by
  have hescaped : escaped (['"'] ++ body) letter rest =
      ⟨.error ⟨.invalidEscape letter, '"' :: body⟩, [letter], rest⟩ := by
    rw [escaped, hnone]
    rfl
  rw [string, content_body hbody (by rwa [Nat.zero_add]), content_escape, hescaped, bind_error]
  rfl

theorem string_open {left : List Char} (hbody : Body body decoded)
    (hallows : Allows limit decoded.length) (hleft : left = [] ∨ left = ['\\']) :
    string limit (body ++ left) =
      ⟨.error ⟨.unterminatedString, []⟩, '"' :: (body ++ left), []⟩ := by
  rw [string, content_body hbody (by rwa [Nat.zero_add])]
  rcases hleft with rfl | rfl <;> rfl

end Reading

end StreamLexer
