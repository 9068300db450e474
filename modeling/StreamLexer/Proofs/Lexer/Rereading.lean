import StreamLexer.Proofs.Grammar.Rendering
import StreamLexer.Proofs.Lexer.Acceptance
import StreamLexer.Proofs.Lexer.Soundness

/-! # Rendered tokens are read again

Whatever the stream and the settings, a token that a lexer gives is denoted by a lexeme. Its written
form denotes it too, so the rendered tokens are a text of the grammar, which no byte order mark
starts, and a lexer with the usual settings gives the same tokens for it.
-/

set_option autoImplicit false

namespace StreamLexer

open CharClass Grammar

/-- A token in front of any tape is denoted by what was taken for it. -/
theorem View.denotes_of_next {v : View} {placed : Placed} (h : v.next.1 = .ok (some placed)) :
    ∃ lexeme, Denotes lexeme placed.token := by
  rcases v.next_result with hend | ⟨error, herror, -⟩ | ⟨c, rest, start, -, hread⟩
  · rw [h] at hend
    cases hend
  · rw [h] at herror
    cases herror
  · rw [h, Reading.placed] at hread
    cases hresult : (Reading.token v.limit c rest).result with
    | error fault =>
      rw [hresult] at hread
      cases hread
    | ok token =>
      rw [hresult] at hread
      cases hread
      exact ⟨_, (Reading.token_recognizes hresult).denotes⟩

namespace Lexer

variable {lexer : Lexer} {tokens : List Token} {token : Token}

theorem denotes_of_outcomes (hready : lexer.Ready) {placed : Placed}
    (h : .ok placed ∈ lexer.outcomes) : ∃ lexeme, Denotes lexeme placed.token := by
  refine invariant_ready.outcomes
    (Q := fun outcome => outcome = .ok placed → ∃ lexeme, Denotes lexeme placed.token) ?_ hready
    _ h rfl
  rintro lexer hready _ hresult rfl
  exact View.denotes_of_next ((result_nextPlaced hready).symm.trans hresult)

theorem denotes_of_tokenize (hready : lexer.Ready) (h : lexer.tokenize.result = .ok tokens) :
    ∀ token ∈ tokens, ∃ lexeme, Denotes lexeme token := by
  intro token htoken
  cases hfailed : lexer.failed with
  | true =>
    rw [tokenize_of_failed hfailed] at h
    cases h
    cases htoken
  | false =>
    obtain ⟨placed, houtcomes, rfl⟩ := (tokenize_iff_outcomes hfailed).mp h
    obtain ⟨first, hfirst, rfl⟩ := List.mem_map.mp htoken
    exact denotes_of_outcomes hready (houtcomes ▸ List.mem_map_of_mem hfirst)

/-- No written form starts with a byte order mark. -/
theorem withoutMark_rendered (h : ∀ token ∈ tokens, Denotes token.chars token) (skipMark : Bool) :
    withoutMark skipMark ([' '].intercalate (tokens.map Token.chars)) =
      [' '].intercalate (tokens.map Token.chars) :=
  withoutMark_of_lexes (lexes_rendered h) skipMark

/-- The tokens of any stream, rendered with spaces between them, are read again as they are. -/
theorem reread_of_tokenize (reader : Reader) (config : Config)
    (h : (new reader config).tokenize.result = .ok tokens) : reread tokens = .ok tokens := by
  have hdenotes : ∀ token ∈ tokens, Denotes token.chars token := fun token htoken => by
    obtain ⟨lexeme, hlexeme⟩ := denotes_of_tokenize (ready_new reader config) h token htoken
    exact denotes_chars hlexeme
  have hlexes := lexes_rendered hdenotes
  rw [reread, ofText, Token.renderAll, String.toList_ofList,
    tokenize_iff_lexes (ready_new _ _) (along_new _ _), ahead_new, withoutMark_rendered hdenotes]
  exact hlexes

/-- With a mark, an escape and a number that is not written in the shortest way. -/
theorem reread_of_statement :
    let text := "\ufeffstate x1=\"a\\n\\\"\" <= 2.50".toList
    let tokens : List Token := [.keyword .stateKw, .identifier "x1", .operator .assign,
      .string "a\n\"", .operator .lessOrEqual, .float ⟨0x40200000⟩]
    (new (.ofBytes (Utf8.encode text)) ⟨3, true, some 5⟩).tokenize.result = .ok tokens ∧
      reread tokens = .ok tokens := by
  intro text tokens
  have hsome : (new (.ofBytes (Utf8.encode text)) ⟨3, true, some 5⟩).tokenize.result.toOption =
      some tokens := by
    decide +kernel
  have htokens : (new (.ofBytes (Utf8.encode text)) ⟨3, true, some 5⟩).tokenize.result =
      .ok tokens := by
    generalize (new (.ofBytes (Utf8.encode text)) ⟨3, true, some 5⟩).tokenize.result = result
      at hsome ⊢
    cases result with
    | error error => cases hsome
    | ok found => exact congrArg Except.ok (Option.some.inj hsome)
  exact ⟨htokens, reread_of_tokenize _ _ htokens⟩

end Lexer

end StreamLexer
