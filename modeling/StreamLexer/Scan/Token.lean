import StreamLexer.Scan.Literal

/-!
# Scanning tokens

The lookahead decides which scanner reads a token. A word is read to its greatest length and then
looked up by its spelling. An operator is decided by its first character, and a second one is
consumed only where it completes an operator of two. A character that opens no token is consumed, so
every call makes progress.
-/

set_option autoImplicit false

namespace StreamLexer.Scan

open Stateful Cursor

def word (scope : Scope) : Scan Token := do
  let text := String.ofList (← run scope CharClass.isWordPart 0)
  match Keyword.ofSpelling? text with
  | some keyword => return .keyword keyword
  | none => return .identifier text

def orEqual (withEqual single : Operator) : Scan Operator := do
  if ← accept '=' then return withEqual else return single

/-- An operator that has to be doubled. -/
def doubled (scope : Scope) (c : Char) (operator : Operator) : Scan Operator := do
  if ← accept c then return operator
  else scope.fail (.unrecognizedOperator (String.ofList [c]))

/-- The operator whose first character has been consumed. -/
def operatorOf (scope : Scope) (first : Char) : Scan Operator :=
  match first with
  | '*' => return .multiply
  | '/' => return .divide
  | '%' => return .modulo
  | '+' => return .plus
  | '-' => return .minus
  | '<' => orEqual .lessOrEqual .lessThan
  | '>' => orEqual .greaterOrEqual .greaterThan
  | '=' => orEqual .equal .assign
  | '!' => orEqual .notEqual .logicalNot
  | '&' => doubled scope '&' .logicalAnd
  | '|' => doubled scope '|' .logicalOr
  | other => scope.fail (.unrecognizedOperator (String.ofList [other]))

def operator (scope : Scope) : Scan Token := do
  let cursor ← get
  match cursor.current with
  | none => scope.fail (.unrecognizedOperator "")
  | some first =>
    step
    return .operator (← operatorOf scope first)

/-- The token that starts with the lookahead `c`. -/
def token (scope : Scope) (c : Char) : Scan Token :=
  if c = '"' then stringLiteral scope
  else if CharClass.isDigit c then number scope
  else if CharClass.isWordStart c then word scope
  else if CharClass.isOperatorStart c then operator scope
  else do
    step
    scope.fail (.unrecognizedCharacter c)

def skipBlanks : Scan Unit := do
  let _ ← run ⟨.start, none⟩ CharClass.isBlank 0

theorem shrinks_orEqual (withEqual single : Operator) :
    Shrinks weight (orEqual withEqual single) := by
  apply Shrinks.bind (shrinks_accept _)
  intro accepted
  split <;> exact Shrinks.pure _

theorem shrinks_doubled (scope : Scope) (c : Char) (operator : Operator) :
    Shrinks weight (doubled scope c operator) := by
  apply Shrinks.bind (shrinks_accept _)
  intro accepted
  split
  · exact Shrinks.pure _
  · exact Shrinks.throw _

theorem shrinks_operatorOf (scope : Scope) (first : Char) :
    Shrinks weight (operatorOf scope first) := by
  simp only [operatorOf]
  split
  case h_6 | h_7 | h_8 | h_9 => exact shrinks_orEqual _ _
  case h_10 | h_11 => exact shrinks_doubled _ _ _
  case h_12 => exact Shrinks.throw _
  all_goals exact Shrinks.pure _

theorem operator_of_current {scope : Scope} {cursor : Cursor} {c : Char}
    (h : cursor.current = some c) :
    operator scope cursor = (do step; return Token.operator (← operatorOf scope c)) cursor := by
  obtain ⟨source, current, position⟩ := cursor
  cases h
  rfl

theorem shrinks_skipBlanks : Shrinks weight skipBlanks :=
  Shrinks.bind (shrinks_run _ _ _) fun _ => Shrinks.pure _

theorem weight_lt_of_skipBlanks_eq_error {cursor last : Cursor} {error : LexError}
    (h : skipBlanks cursor = .error error last) : last.weight < cursor.weight := by
  change EStateM.bind (run _ _ _) _ cursor = _ at h
  simp only [EStateM.bind] at h
  split at h
  · cases h
  · rename_i hrun
    cases h
    exact weight_lt_of_run_eq_error hrun

/-- A token, or the error in its place, takes at least its first character. -/
theorem weight_token_lt {scope : Scope} {cursor : Cursor} {c : Char}
    (hcurrent : cursor.current = some c) :
    (after (token scope c cursor)).weight < cursor.weight := by
  have hsome : cursor.current.isSome := by simp [hcurrent]
  simp only [token]
  split
  · exact weight_stringLiteral_lt hsome
  · split
    · rename_i hdigit
      exact weight_number_lt hcurrent hdigit
    · split
      · rename_i hstart
        have hpart : CharClass.isWordPart c := by simp [CharClass.isWordPart, hstart]
        apply Shrinks.bind_lt (weight_run_lt hcurrent hpart)
        intro text
        dsimp only
        split
        · exact Shrinks.pure _
        · exact Shrinks.pure _
      · split
        · rw [operator_of_current hcurrent]
          refine weight_step_bind_lt (fun _ => ?_) hsome
          exact Shrinks.bind (shrinks_operatorOf _ _) fun _ => Shrinks.pure _
        · exact weight_step_bind_lt (fun _ => Shrinks.throw _) hsome

end StreamLexer.Scan
