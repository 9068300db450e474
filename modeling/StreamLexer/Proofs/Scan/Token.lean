import StreamLexer.Proofs.Cursor.Invariant
import StreamLexer.Proofs.Grammar.Scanning
import StreamLexer.Proofs.Number.Binary32
import StreamLexer.Proofs.Scan.Follows

/-! # Every token is read from the text in front

Each scanner of a token follows its reading, in front of every tape. The loops are unfolded once,
into a step and the same loop behind it, and the induction is on the text.
-/

set_option autoImplicit false

namespace StreamLexer.Scan

open Stateful CharClass Grammar

variable {scope : Scope} {p : Char → Bool} {taken : Nat} {cursor : Cursor} {c : Char}

theorem run_of_none (h : cursor.current = none) : run scope p taken cursor = .ok [] cursor := by
  rw [run]
  split <;> simp_all

theorem run_of_not (h : cursor.current = some c) (hp : p c = false) :
    run scope p taken cursor = .ok [] cursor := by
  rw [run]
  split <;> simp_all

theorem run_of_some (h : cursor.current = some c) (hp : p c = true) :
    run scope p taken cursor =
      (do consume scope taken; let rest ← run scope p (taken + 1); return c :: rest) cursor := by
  rw [run]
  split
  · simp_all
  · rename_i d hd
    obtain rfl : c = d := by simpa [h] using hd
    rw [if_pos hp]
    split
    · rename_i hconsume
      exact (bind_of_error hconsume).symm
    · rename_i hconsume
      rw [bind_of_ok hconsume]
      split
      · rename_i hrun
        exact (bind_of_error hrun).symm
      · rename_i rest last hrun
        exact (bind_of_ok (k := fun rest => pure (c :: rest)) hrun).symm

theorem follows_check (scope : Scope) (length : Nat) {text : List Char}
    (htext : cursor.tape.text = text) :
    Follows scope.start (scope.check length) cursor (Reading.check scope.limit length text) := by
  simp only [Scope.check, Reading.check]
  cases scope.limit with
  | none => exact Follows.done () htext
  | some limit =>
    dsimp only
    split
    · exact Follows.fail _ htext
    · exact Follows.done () htext

theorem follows_consume_bind {α : Type} {k : Unit → Scan α} {reading : Reading α} {rest : List Char}
    (htext : cursor.tape.text = c :: rest)
    (hk : ∀ after : Cursor, after.position = cursor.position.past c → after.tape.text = rest →
      Follows scope.start (k ()) after reading) :
    Follows scope.start (consume scope taken >>= k) cursor
      (((Reading.check scope.limit (taken + 1) rest).bind fun _ _ => reading).push c) := by
  simp only [consume]
  rw [bind_assoc]
  apply Follows.step_bind htext
  intro after hafter hrest
  refine Follows.bind (follows_check scope _ hrest) fun _ last _ hlast hlastRest => hk last ?_ ?_
  · rw [hlast, Reading.check_taken, Position.pastAll_nil, hafter]
  · rw [hlastRest, Reading.check_rest]

theorem follows_run (scope : Scope) (p : Char → Bool) (taken : Nat) {text : List Char}
    (htext : cursor.tape.text = text) :
    Follows scope.start (run scope p taken) cursor (Reading.span scope.limit p taken text) := by
  induction text generalizing taken cursor with
  | nil =>
    have hcurrent : cursor.current = none := by rw [← cursor.head?_tape, htext, List.head?_nil]
    exact (Follows.done [] htext).congr (run_of_none hcurrent)
  | cons c rest ih =>
    have hcurrent := Cursor.current_of_text htext
    rw [Reading.span]
    cases hp : p c with
    | false => exact (Follows.done [] htext).congr (run_of_not hcurrent hp)
    | true =>
      refine Follows.congr ?_ (run_of_some hcurrent hp)
      exact follows_consume_bind htext fun after _ hrest => (ih _ hrest).map _

/-! ## Strings -/

theorem consumeElement_plain (hc : c ≠ '\\') :
    consumeElement scope taken c = (do consume scope taken; return c) := by
  funext cursor
  change ((do step; if c = '\\' then escaped scope cursor.position else return c) >>= fun meaning =>
    do scope.check (taken + 1); return meaning) cursor = _
  simp only [if_neg hc, consume, bind_assoc, pure_bind]

theorem content_of_none (h : cursor.current = none) :
    content scope taken cursor = scope.fail .unterminatedString cursor := by
  rw [content]
  split <;> simp_all

theorem content_of_quote (h : cursor.current = some '"') :
    content scope taken cursor = (do step; return []) cursor := by
  rw [content]
  split <;> simp_all

theorem content_of_some (h : cursor.current = some c) (hc : c ≠ '"') :
    content scope taken cursor =
      (do
        let meaning ← consumeElement scope taken c
        let rest ← content scope (taken + 1)
        return meaning :: rest) cursor := by
  rw [content]
  split
  · simp_all
  · rename_i d hd
    obtain rfl : c = d := by simpa [h] using hd
    rw [if_neg hc]
    split
    · rename_i hconsume
      exact (bind_of_error hconsume).symm
    · rename_i meaning next hconsume
      rw [bind_of_ok hconsume]
      split
      · rename_i hcontent
        exact (bind_of_error hcontent).symm
      · rename_i rest last hcontent
        exact (bind_of_ok (k := fun rest => pure (meaning :: rest)) hcontent).symm

theorem content_of_backslash (h : cursor.current = some '\\') :
    content scope taken cursor =
      (do
        step
        let meaning ← escaped scope cursor.position
        scope.check (taken + 1)
        let rest ← content scope (taken + 1)
        return meaning :: rest) cursor := by
  rw [content_of_some h (by decide)]
  simp only [consumeElement, element, bind_assoc, pure_bind, if_true]
  rfl

theorem escaped_of_none (h : cursor.current = none) (backslash : Position) :
    escaped scope backslash cursor = scope.fail .unterminatedString cursor := by
  obtain ⟨source, current, position⟩ := cursor
  cases h
  rfl

theorem escaped_of_some {letter : Char} (h : cursor.current = some letter) (backslash : Position) :
    escaped scope backslash cursor =
      (do
        step
        match Escape.meaningOf? letter with
        | some c => return c
        | none => throw (⟨.invalidEscape letter, backslash⟩ : LexError)) cursor := by
  obtain ⟨source, current, position⟩ := cursor
  cases h
  rfl

theorem follows_escaped (scope : Scope) (before : List Char) {letter : Char} {rest : List Char}
    (htext : cursor.tape.text = letter :: rest) :
    Follows scope.start (escaped scope (scope.start.pastAll before)) cursor
      (Reading.escaped before letter rest) := by
  refine Follows.congr ?_ (escaped_of_some (Cursor.current_of_text htext) _)
  apply Follows.step_bind htext
  intro after _ hrest
  cases Escape.meaningOf? letter with
  | none => exact Follows.throw _ _ hrest
  | some meaning => exact Follows.done meaning hrest

theorem follows_content (scope : Scope) (before : List Char) (taken : Nat) {text : List Char}
    (htext : cursor.tape.text = text) (hposition : cursor.position = scope.start.pastAll before) :
    Follows scope.start (content scope taken) cursor
      (Reading.content scope.limit before taken text) := by
  -- `before` grows with the cursor, so errors can be placed relative to the start of the literal.
  fun_induction Reading.content scope.limit before taken text generalizing cursor with
  | case1 before taken =>
    have hcurrent : cursor.current = none := by rw [← cursor.head?_tape, htext, List.head?_nil]
    exact (Follows.fail _ htext).congr (content_of_none hcurrent)
  | case2 before taken rest =>
    refine Follows.congr ?_ (content_of_quote (Cursor.current_of_text htext))
    exact Follows.step_bind htext fun after _ hrest => Follows.done [] hrest
  | case3 before taken hc =>
    refine Follows.congr ?_ (content_of_backslash (Cursor.current_of_text htext))
    apply Follows.step_bind htext
    intro after _ hrest
    have hnone : after.current = none := by rw [← after.head?_tape, hrest, List.head?_nil]
    have hescaped : Follows scope.start (escaped scope cursor.position) after
        (Reading.fail .unterminatedString []) :=
      (Follows.fail _ hrest).congr (escaped_of_none hnone _)
    exact hescaped.bind_fault
  | case4 before taken hc letter rest ih =>
    have hcurrent := Cursor.current_of_text htext
    refine Follows.congr ?_ (content_of_backslash hcurrent)
    apply Follows.step_bind htext
    intro after hafter hrest
    have hescaped := follows_escaped scope before hrest
    rw [← hposition] at hescaped
    apply hescaped.bind
    intro meaning second _ hsecond hsecondRest
    rw [Reading.escaped_rest] at hsecondRest
    apply (follows_check scope _ hsecondRest).bind
    intro _ third _ hthird hthirdRest
    rw [Reading.check_rest] at hthirdRest
    refine (ih hthirdRest ?_).map _
    rw [hthird, hsecond, hafter, hposition, Position.pastAll_append, Reading.escaped_taken,
      Reading.check_taken]
    rfl
  | case5 before taken c rest hquote hc ih =>
    have hcurrent := Cursor.current_of_text htext
    refine Follows.congr ?_ (content_of_some hcurrent hquote)
    rw [consumeElement_plain hc, bind_assoc]
    apply follows_consume_bind htext
    intro after hafter hrest
    simp only [pure_bind]
    refine (ih hrest ?_).map _
    rw [hafter, hposition, Position.pastAll_append]
    rfl

theorem follows_stringLiteral (scope : Scope) {rest : List Char}
    (htext : cursor.tape.text = '"' :: rest) (hposition : cursor.position = scope.start) :
    Follows scope.start (stringLiteral scope) cursor (Reading.string scope.limit rest) := by
  apply Follows.step_bind htext
  intro after hafter hrest
  refine (follows_content scope ['"'] 0 hrest ?_).map _
  rw [hafter, hposition]
  rfl

/-! ## Numbers -/

/-- A number that is not empty is refused for its size only. -/
theorem follows_ofDigits (scope : Scope) {digits rest : List Char} (hdigits : IsDigits digits)
    (htext : cursor.tape.text = rest) :
    Follows scope.start (ofDigits scope digits) cursor (Reading.ofDigits digits rest) := by
  rw [ofDigits, toInt32?_of_digits hdigits, Reading.ofDigits]
  by_cases hvalue : Decimal.value digits ≤ 0x7FFFFFFF
  · rw [if_pos hvalue, if_pos hvalue]
    exact Follows.done _ htext
  · rw [if_neg hvalue, if_neg hvalue]
    exact Follows.fail _ htext

/-- Digits around a point are refused for their size only. -/
theorem follows_ofFloat (scope : Scope) {whole fraction rest : List Char}
    (hwhole : IsDigits whole) (hfraction : IsDigits fraction) (htext : cursor.tape.text = rest) :
    let text := whole ++ '.' :: fraction
    Follows scope.start (ofFloat scope text (Binary32.ofText? text)) cursor
      (Reading.ofFloat text (Binary32.ofDecimal? whole fraction) rest) := by
  intro text
  rw [ofText?_of_digits hwhole hfraction, ofFloat]
  cases hvalue : Binary32.ofDecimal? whole fraction with
  | none => exact Follows.fail _ htext
  | some value =>
    rw [Option.getD_some, if_pos (Binary32.finite_of_ofDecimal? hvalue).1]
    exact Follows.done _ htext

theorem located_bind_pure {α β : Type} (m : Stateful ReadError Cursor α) (f : α → β)
    (cursor : Cursor) :
    located (do return f (← m)) cursor = (do return f (← located m)) cursor := by
  cases hm : m cursor with
  | ok a next =>
    have hlocated : located m cursor = .ok a next := by rw [located, hm]
    rw [bind_of_ok hlocated, located, bind_of_ok hm]
    rfl
  | error error next =>
    have hlocated : located m cursor = .error ⟨.streamRead error, cursor.position⟩ next := by
      rw [located, hm]
    rw [bind_of_error hlocated, located, bind_of_error hm]

theorem accept_of_eq (h : cursor.current = some c) :
    accept c cursor = (do step; return true) cursor := by
  refine Eq.trans ?_ (located_bind_pure Cursor.advance (fun _ => true) cursor)
  rw [accept, located, Cursor.accept_of_current h]
  rfl

theorem accept_of_ne (h : cursor.current ≠ some c) : accept c cursor = .ok false cursor := by
  rw [accept, located, Cursor.accept_of_not_current h]

theorem follows_accept_bind {α : Type} {start : Position} {k : Bool → Scan α} {text : List Char}
    {yes : List Char → Reading α} {no : Reading α} (htext : cursor.tape.text = text)
    (hyes : ∀ (rest : List Char) (after : Cursor), after.tape.text = rest →
      Follows start (k true) after (yes rest))
    (hno : Follows start (k false) cursor no) :
    Follows start (accept c >>= k) cursor (Reading.accept c text yes no) := by
  have hskip (h : cursor.current ≠ some c) : Follows start (accept c >>= k) cursor no :=
    hno.congr (bind_of_ok (accept_of_ne h))
  cases text with
  | nil => exact hskip (by rw [← cursor.head?_tape, htext]; nofun)
  | cons d rest =>
    have hcurrent := Cursor.current_of_text htext
    rw [Reading.accept]
    split
    · rename_i heq
      subst heq
      have hstep : (accept d >>= k) cursor = (do step; k true) cursor := by
        rw [bind_congr_at k (accept_of_eq hcurrent), bind_assoc]
        simp only [pure_bind]
      exact (Follows.step_bind htext fun after _ hrest => hyes rest after hrest).congr hstep
    · rename_i hne
      exact hskip (by rw [hcurrent]; simpa using hne)

theorem follows_number (scope : Scope) {rest : List Char} (htext : cursor.tape.text = c :: rest)
    (hc : isDigit c) :
    Follows scope.start (number scope) cursor (Reading.number scope.limit (c :: rest)) := by
  apply (follows_run scope _ _ htext).bind
  intro whole after hspan _ hrest
  have hhead : (c :: rest).head?.any isDigit := hc
  obtain ⟨hwhole, -⟩ := Reading.span_digits hhead hspan
  refine follows_accept_bind hrest (fun left next hnext => ?_) (follows_ofDigits scope hwhole hrest)
  rw [if_pos rfl]
  apply Follows.get_bind
  rw [Cursor.currentIs_of_text hnext, Reading.fraction]
  split
  · rename_i hdigit
    apply (follows_run scope _ _ hnext).bind
    intro fraction last hrun _ hlast
    obtain ⟨hfraction, -⟩ := Reading.span_digits hdigit hrun
    exact follows_ofFloat scope hwhole hfraction hlast
  · exact Follows.fail _ hnext

/-! ## Words and operators -/

theorem follows_word (scope : Scope) {text : List Char} (htext : cursor.tape.text = text) :
    Follows scope.start (word scope) cursor (Reading.word scope.limit text) := by
  apply (follows_run scope _ _ htext).bind
  intro spelling after _ _ hrest
  rw [Token.ofWord]
  dsimp only
  cases Keyword.ofSpelling? (String.ofList spelling) with
  | none => exact Follows.done _ hrest
  | some keyword => exact Follows.done _ hrest

section Operators

variable {start : Position} {rest : List Char}

theorem follows_single {operator : Operator} (hpartner : Reading.partner? c = none)
    (hspelling : Operator.ofSpelling? (String.ofList [c]) = some operator)
    (htext : cursor.tape.text = rest) :
    Follows start (return Token.operator (← (return operator : Scan Operator))) cursor
      ((Reading.operatorText c rest).bind Reading.ofSpelling) := by
  rw [Reading.operatorText, hpartner]
  dsimp only
  rw [Reading.bind_done, Reading.ofSpelling, hspelling, pure_bind]
  exact Follows.done _ htext

theorem follows_orEqual {withEqual single : Operator} (hpartner : Reading.partner? c = some '=')
    (hboth : Operator.ofSpelling? (String.ofList [c, '=']) = some withEqual)
    (hsingle : Operator.ofSpelling? (String.ofList [c]) = some single)
    (htext : cursor.tape.text = rest) :
    Follows start (return Token.operator (← orEqual withEqual single)) cursor
      ((Reading.operatorText c rest).bind Reading.ofSpelling) := by
  rw [Reading.operatorText, hpartner]
  dsimp only
  rw [Reading.accept_bind, orEqual, bind_assoc]
  apply follows_accept_bind htext
  · intro left after hleft
    rw [if_pos rfl, pure_bind, Reading.bind_done, Reading.ofSpelling, hboth]
    exact Follows.done _ hleft
  · rw [if_neg Bool.false_ne_true, pure_bind, Reading.bind_done, Reading.ofSpelling, hsingle]
    exact Follows.done _ htext

theorem follows_doubled {scope : Scope} {operator : Operator}
    (hpartner : Reading.partner? c = some c)
    (hboth : Operator.ofSpelling? (String.ofList [c, c]) = some operator)
    (hsingle : Operator.ofSpelling? (String.ofList [c]) = none) (htext : cursor.tape.text = rest) :
    Follows scope.start (return Token.operator (← doubled scope c operator)) cursor
      ((Reading.operatorText c rest).bind Reading.ofSpelling) := by
  rw [Reading.operatorText, hpartner]
  dsimp only
  rw [Reading.accept_bind, doubled, bind_assoc]
  apply follows_accept_bind htext
  · intro left after hleft
    rw [if_pos rfl, pure_bind, Reading.bind_done, Reading.ofSpelling, hboth]
    exact Follows.done _ hleft
  · rw [if_neg Bool.false_ne_true, Reading.bind_done, Reading.ofSpelling, hsingle]
    exact (Follows.fail _ htext).bind_fault

/-- In front of the start of an operator, each start has an arm of its own. -/
theorem follows_operatorOf (scope : Scope) (hc : isOperatorStart c)
    (htext : cursor.tape.text = rest) :
    Follows scope.start (return Token.operator (← operatorOf scope c)) cursor
      ((Reading.operatorText c rest).bind Reading.ofSpelling) := by
  simp only [operatorOf]
  split
  case h_6 | h_7 | h_8 | h_9 => exact follows_orEqual rfl rfl rfl htext
  case h_10 | h_11 => exact follows_doubled rfl rfl rfl htext
  case h_12 => simp_all [isOperatorStart]
  all_goals exact follows_single rfl rfl htext

theorem follows_operator (scope : Scope) (hc : isOperatorStart c)
    (htext : cursor.tape.text = c :: rest) :
    Follows scope.start (operator scope) cursor (Reading.operator c rest) := by
  refine Follows.congr ?_ (operator_of_current (Cursor.current_of_text htext))
  apply Follows.step_bind htext
  intro after _ hrest
  exact follows_operatorOf scope hc hrest

end Operators

theorem follows_token (scope : Scope) {rest : List Char} (htext : cursor.tape.text = c :: rest)
    (hposition : cursor.position = scope.start) :
    Follows scope.start (token scope c) cursor (Reading.token scope.limit c rest) := by
  simp only [token, Reading.token]
  split
  · rename_i hquote
    subst hquote
    exact follows_stringLiteral scope htext hposition
  · split
    · rename_i hdigit
      exact follows_number scope htext hdigit
    · split
      · exact follows_word scope htext
      · split
        · rename_i hoperator
          exact follows_operator scope hoperator htext
        · exact Follows.step_bind htext fun after _ hrest => Follows.fail _ hrest

theorem follows_skipBlanks {text : List Char} (htext : cursor.tape.text = text) :
    Follows .start skipBlanks cursor (Reading.blanks text) :=
  (follows_run ⟨.start, none⟩ _ _ htext).map _

end StreamLexer.Scan
