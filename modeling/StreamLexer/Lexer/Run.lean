import StreamLexer.Lexer.Progress

/-!
# Runs of the lexer

`scan` asks for tokens until the stream ends and goes on after errors; `drain` takes all that is
left of the sequence that ends with the first error, and `tokenize` gives its tokens or that error.
-/

set_option autoImplicit false

namespace StreamLexer.Lexer

/-- A token or an error, with the position of the lexer after the call that gave it. -/
structure Item where
  outcome : Except LexError Placed
  stop : Position

/-- Every item up to the end of the stream. -/
def scan (lexer : Lexer) : Call (List Item) :=
  match _ : lexer.nextPlaced with
  | ⟨.ok none, events, last⟩ => ⟨[], events, last⟩
  | ⟨.ok (some placed), events, next⟩ =>
    let rest := scan next
    ⟨⟨.ok placed, next.position⟩ :: rest.result, events ++ rest.events, rest.lexer⟩
  | ⟨.error error, events, next⟩ =>
    let rest := scan next
    ⟨⟨.error error, next.position⟩ :: rest.result, events ++ rest.events, rest.lexer⟩
termination_by lexer.weight
decreasing_by
  all_goals
    rename_i hcall
    have hlt := lexer.weight_nextPlaced.2
    rw [hcall] at hlt
    exact hlt (by simp)

/-- Every item that `next` still gives. -/
def drain (lexer : Lexer) : Call (List (Except LexError Token)) :=
  match _ : lexer.next with
  | ⟨none, events, last⟩ => ⟨[], events, last⟩
  | ⟨some item, events, next⟩ =>
    let rest := drain next
    ⟨item :: rest.result, events ++ rest.events, rest.lexer⟩
termination_by lexer.weight
decreasing_by
  rename_i hcall
  have hlt := @weight_next_lt lexer
  rw [hcall] at hlt
  exact hlt rfl

def tokenize (lexer : Lexer) : Call (Except LexError (List Token)) :=
  lexer.drain.map fun items => items.mapM id

/-- What a new lexer reports when it is made, and then in a scan. -/
def transcript (lexer : Lexer) : List Event :=
  lexer.announce.events ++ lexer.scan.events

/-- The tokens read from the written form of a token sequence. -/
def reread (tokens : List Token) : Except LexError (List Token) :=
  (ofText (Token.renderAll tokens).toList).tokenize.result

end StreamLexer.Lexer
