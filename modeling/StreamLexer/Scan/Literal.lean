import StreamLexer.Scan.Basic
import StreamLexer.Text.CharClass
import StreamLexer.Token.Basic

/-!
# Scanning literals

A string literal is read element by element, an element being a plain character or an escape,
until a quote closes it. A number literal is a run of digits, with a second run after a point if
there is one; the point is consumed before it is known whether a digit follows. The length of a
string is that of its decoded content, the length of a number that of its text.
-/

set_option autoImplicit false

namespace StreamLexer.Scan

open Stateful Cursor

/-- The character that an escape stands for, read from behind the backslash at `backslash`. -/
def escaped (scope : Scope) (backslash : Position) : Scan Char := do
  let cursor ← get
  match cursor.current with
  | none => scope.fail .unterminatedString
  | some letter =>
    step
    match Escape.meaningOf? letter with
    | some c => return c
    | none => throw ⟨.invalidEscape letter, backslash⟩

def element (scope : Scope) (c : Char) : Scan Char := do
  let cursor ← get
  step
  if c = '\\' then escaped scope cursor.position else return c

def consumeElement (scope : Scope) (taken : Nat) (c : Char) : Scan Char := do
  let meaning ← element scope c
  scope.check (taken + 1)
  return meaning

theorem shrinks_escaped (scope : Scope) (backslash : Position) :
    Shrinks weight (escaped scope backslash) := by
  apply Shrinks.bind Shrinks.get
  intro cursor
  split
  · exact Shrinks.throw _
  · apply Shrinks.bind shrinks_step
    intro _
    split
    · exact Shrinks.pure _
    · exact Shrinks.throw _

theorem weight_consumeElement_lt {scope : Scope} {taken : Nat} {c : Char} {cursor : Cursor}
    (h : cursor.current.isSome) :
    (after (consumeElement scope taken c cursor)).weight < cursor.weight := by
  refine Shrinks.bind_lt ?_ fun _ => Shrinks.bind (shrinks_check _ _) fun _ => Shrinks.pure _
  refine weight_step_bind_lt (fun _ => ?_) h
  split
  · exact shrinks_escaped _ _
  · exact Shrinks.pure _

theorem weight_lt_of_consumeElement_eq {scope : Scope} {taken : Nat} {c meaning : Char}
    {cursor next : Cursor} (hcurrent : cursor.current = some c)
    (h : consumeElement scope taken c cursor = .ok meaning next) : next.weight < cursor.weight := by
  have hlt := @weight_consumeElement_lt scope taken c cursor (by simp [hcurrent])
  rwa [h] at hlt

/-- The elements up to the closing quote, which is consumed, in a literal that has `taken`
elements before them. -/
def content (scope : Scope) (taken : Nat) : Scan (List Char) := fun cursor =>
  match _ : cursor.current with
  | none => scope.fail .unterminatedString cursor
  | some c =>
    if c = '"' then
      (do step; return []) cursor
    else
      match _ : consumeElement scope taken c cursor with
      | .error error next => .error error next
      | .ok meaning next =>
        match content scope (taken + 1) next with
        | .error error last => .error error last
        | .ok rest last => .ok (meaning :: rest) last
termination_by cursor => cursor.weight
decreasing_by
  rename_i hcurrent _ hconsume
  exact weight_lt_of_consumeElement_eq hcurrent hconsume

def stringLiteral (scope : Scope) : Scan Token := do
  step
  return .string (String.ofList (← content scope 0))

def ofDigits (scope : Scope) (digits : List Char) : Scan Token :=
  match Decimal.toInt32? digits with
  | some value => return .int value
  | none => scope.fail (.numberOverflow (String.ofList digits))

/-- The token of a number with a point, which is written as `text` and read as this value. -/
def ofFloat (scope : Scope) (text : List Char) : Option Binary32 → Scan Token
  | some value =>
    if value.isFinite then return .float value
    else scope.fail (.numberOverflow (String.ofList text))
  | none => scope.fail (.malformedNumber (String.ofList text))

def number (scope : Scope) : Scan Token := do
  let whole ← run scope CharClass.isDigit 0
  if ← accept '.' then
    let cursor ← get
    if cursor.currentIs CharClass.isDigit then
      let fraction ← run scope CharClass.isDigit (whole.length + 1)
      let text := whole ++ '.' :: fraction
      ofFloat scope text (Binary32.ofText? text)
    else
      scope.fail (.malformedNumber (String.ofList (whole ++ ['.'])))
  else
    ofDigits scope whole

theorem shrinks_content (scope : Scope) (taken : Nat) : Shrinks weight (content scope taken) := by
  intro cursor
  fun_induction content scope taken cursor with
  | case1 => exact Nat.le_refl _
  | case2 taken cursor hcurrent =>
    exact Nat.le_of_lt (weight_step_bind_lt (fun _ => Shrinks.pure _) (by simp [hcurrent]))
  | case3 taken cursor c hcurrent _ error next hconsume =>
    have hlt := @weight_consumeElement_lt scope taken c cursor (by simp [hcurrent])
    rw [hconsume] at hlt
    exact Nat.le_of_lt hlt
  | case4 taken cursor c hcurrent _ meaning next hconsume error last hcontent ih =>
    rw [hcontent] at ih
    exact Nat.le_trans ih (Nat.le_of_lt (weight_lt_of_consumeElement_eq hcurrent hconsume))
  | case5 taken cursor c hcurrent _ meaning next hconsume rest last hcontent ih =>
    rw [hcontent] at ih
    exact Nat.le_trans ih (Nat.le_of_lt (weight_lt_of_consumeElement_eq hcurrent hconsume))

theorem weight_stringLiteral_lt {scope : Scope} {cursor : Cursor} (h : cursor.current.isSome) :
    (after (stringLiteral scope cursor)).weight < cursor.weight :=
  weight_step_bind_lt (fun _ => Shrinks.bind (shrinks_content _ _) fun _ => Shrinks.pure _) h

theorem shrinks_ofDigits (scope : Scope) (digits : List Char) :
    Shrinks weight (ofDigits scope digits) := by
  rw [ofDigits]
  split
  · exact Shrinks.pure _
  · exact Shrinks.throw _

theorem shrinks_ofFloat (scope : Scope) (text : List Char) (value : Option Binary32) :
    Shrinks weight (ofFloat scope text value) := by
  cases value with
  | none => exact Shrinks.throw _
  | some value =>
    rw [ofFloat]
    split
    · exact Shrinks.pure _
    · exact Shrinks.throw _

theorem weight_number_lt {scope : Scope} {cursor : Cursor} {c : Char}
    (hcurrent : cursor.current = some c) (hdigit : CharClass.isDigit c) :
    (after (number scope cursor)).weight < cursor.weight := by
  apply Shrinks.bind_lt (weight_run_lt hcurrent hdigit)
  intro whole
  apply Shrinks.bind (shrinks_accept _)
  intro accepted
  split
  · apply Shrinks.bind Shrinks.get
    intro cursor
    split
    · exact Shrinks.bind (shrinks_run _ _ _) fun _ => shrinks_ofFloat _ _ _
    · exact Shrinks.throw _
  · exact shrinks_ofDigits _ _

end StreamLexer.Scan
