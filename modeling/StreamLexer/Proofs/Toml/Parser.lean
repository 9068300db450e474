import StreamLexer.Toml.Parser

/-! # What parsers take from the front of a text

A parser is a function of the text in front of it. Sequence, choice and repetition are opened here
once, by one equation each, so that what a parser takes is found by rewriting.
-/

set_option autoImplicit false

namespace StreamLexer.Toml.Parser

variable {α β : Type} {input rest : List Char}

section Laws

variable (p q : Parser α) (input : List Char)

theorem bind_apply (f : α → Parser β) :
    (p >>= f) input = (p input).bind fun taken => f taken.1 taken.2 :=
  rfl

theorem map_apply (f : α → β) :
    (f <$> p) input = (p input).map fun taken => (f taken.1, taken.2) := by
  change (p input).bind _ = _
  exact Option.map_eq_bind.symm

theorem discard_apply : (discard p) input = (p input).map fun taken => ((), taken.2) :=
  map_apply _ _ _

theorem pure_apply (a : α) : (pure a : Parser α) input = some (a, input) :=
  rfl

theorem orElse_apply : (p <|> q) input = (p input).or (q input) := by
  change (p input <|> q input) = _
  cases p input <;> rfl

theorem peek_apply : peek input = some (input.head?, input) :=
  rfl

theorem peek_bind (f : Option Char → Parser β) : (peek >>= f) input = f input.head? input :=
  rfl

end Laws

section Outcomes

variable {p : Parser α}

theorem bind_of_some {a : α} (h : p input = some (a, rest)) (f : α → Parser β) :
    (p >>= f) input = f a rest := by
  rw [bind_apply, h]
  rfl

theorem bind_of_none (h : p input = none) (f : α → Parser β) : (p >>= f) input = none := by
  rw [bind_apply, h]
  rfl

theorem discard_of_some {a : α} (h : p input = some (a, rest)) :
    (discard p) input = some ((), rest) := by
  rw [discard_apply, h]
  rfl

theorem discard_of_none (h : p input = none) : (discard p) input = none := by
  rw [discard_apply, h]
  rfl

theorem optional_of_none (h : p input = none) : (optional p) input = some (none, input) := by
  rw [optional, orElse_apply, map_apply, h]
  rfl

theorem taken_of_none (h : p input = none) : taken p input = none := by
  rw [taken, bind_apply]
  exact bind_of_none (discard_of_none h) _

end Outcomes

/-! ## Characters -/

theorem satisfy_of_pos {p : Char → Bool} {c : Char} (h : p c) :
    satisfy p (c :: rest) = some (c, rest) := by
  rw [satisfy, bind_apply]
  exact congrFun (if_pos h) rest

theorem satisfy_of_neg {p : Char → Bool} {c : Char} (h : ¬p c) :
    satisfy p (c :: rest) = none := by
  rw [satisfy, bind_apply]
  exact congrFun (if_neg h) rest

theorem char_cons (c : Char) : char c (c :: rest) = some ((), rest) :=
  discard_of_some (satisfy_of_pos (decide_eq_true rfl))

theorem char_of_head? {c : Char} (h : input.head? ≠ some c) : char c input = none := by
  cases input with
  | nil => rfl
  | cons d rest => exact discard_of_none (satisfy_of_neg (by simpa using h))

theorem accept_of_head? {c : Char} (h : input.head? ≠ some c) :
    accept c input = some (false, input) := by
  rw [accept, peek_bind, if_neg h]
  rfl

theorem takeWhile_append {p : Char → Bool} {word : List Char} (hword : ∀ c ∈ word, p c)
    (hrest : ∀ c ∈ rest.head?, p c = false) : takeWhile p (word ++ rest) = some (word, rest) := by
  have hstop : rest.takeWhile p = [] ∧ rest.dropWhile p = rest := by
    cases rest with
    | nil => exact ⟨rfl, rfl⟩
    | cons c rest => simp [hrest c rfl]
  rw [takeWhile, List.takeWhile_append_of_pos hword, List.dropWhile_append_of_pos hword, hstop.1,
    hstop.2, List.append_nil]

/-! ## Repetition -/

section Repetition

variable {step : Parser (Option α)}

theorem repeated_done (h : step input = some (none, rest)) :
    repeated step input = some ([], rest) := by
  rw [repeated.eq_def, h]

theorem repeated_more {a : α} (h : step input = some (some a, rest))
    (hshorter : rest.length < input.length) :
    repeated step input = (repeated step rest).map fun result => (a :: result.1, result.2) := by
  rw [repeated.eq_def, h]
  exact if_pos hshorter

end Repetition

theorem repeated_word {step : Parser (Option Char)} {word : List Char}
    (hmore : ∀ c ∈ word, ∀ rest, step (c :: rest) = some (some c, rest))
    (hdone : step rest = some (none, rest)) : repeated step (word ++ rest) = some (word, rest) := by
  induction word with
  | nil => exact repeated_done hdone
  | cons c word ih =>
    have hfirst := hmore c List.mem_cons_self (word ++ rest)
    rw [List.cons_append, repeated_more hfirst (Nat.lt_succ_self _),
      ih fun d hd => hmore d (List.mem_cons_of_mem c hd)]
    rfl

/-! ## Blanks and the end of a line -/

theorem blanks_apply : blanks input = some ((), input.dropWhile isBlank) :=
  rfl

theorem blanks_of_head? (hspace : input.head? ≠ some ' ') (htab : input.head? ≠ some '\t') :
    blanks input = some ((), input) := by
  cases input with
  | nil => rfl
  | cons c rest =>
    have hblank : ¬isBlank c := by simpa [isBlank] using And.intro hspace htab
    rw [blanks_apply, List.dropWhile_cons_of_neg hblank]

theorem blanks_space : blanks (' ' :: rest) = blanks rest := by
  rw [blanks_apply, blanks_apply, List.dropWhile_cons_of_pos (by decide)]

theorem lineEnd_newline : lineEnd ('\n' :: rest) = some ((), rest) := by
  have hblanks := @blanks_of_head? ('\n' :: rest) (by simp) (by simp)
  have hreturn := @accept_of_head? ('\n' :: rest) '\r' (by simp)
  simp [lineEnd, newline, bind_apply, discard_apply, peek_apply, hblanks, hreturn, char_cons]

end StreamLexer.Toml.Parser
