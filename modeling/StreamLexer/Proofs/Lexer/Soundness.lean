import StreamLexer.Proofs.Grammar.Validity
import StreamLexer.Proofs.Lexer.Remainder
import StreamLexer.Proofs.Lexer.Reports

/-! # Whatever a lexer hands out is valid

A call finds the end, or meets a failure of the stream, or gives what is read in front of a
character that is no blank. Of such a reading every token and every fault is valid, and an answer
hands out nothing but the outcomes of calls.
-/

set_option autoImplicit false

namespace StreamLexer

open CharClass

/-- A token, or an error in place of one, is what it should be under this limit. -/
def Sound (limit : Option Nat) : Except LexError Token → Prop
  | .ok token => token.Valid limit
  | .error error => error.cause.Valid limit

namespace View

/-- The three ways in which a call ends, on any tape. -/
theorem next_result (v : View) :
    v.next.1 = .ok none ∨ (∃ error, v.next.1 = .error error ∧ error.isStreamError = true) ∨
      ∃ c rest start, ¬isBlank c ∧
        v.next.1 = ((Reading.token v.limit c rest).placed start).map some := by
  cases hseek : v.seek.1 with
  | error error =>
    rw [next_of_seek_error hseek]
    exact .inr (.inl ⟨error, rfl, stream_of_seek hseek⟩)
  | ok first =>
    rw [next_of_seek_ok hseek]
    cases htext : v.seek.2.tape.text with
    | nil =>
      rw [scanHere_of_nil htext]
      exact .inl rfl
    | cons c rest =>
      have hhead : c ∈ (v.ahead.dropWhile isBlank).head? := by
        rw [← text_of_seek, htext]
        rfl
      rw [scanHere_of_cons htext, limit_seek]
      dsimp only [Prod.map_fst, View.read, Reading.outcome]
      generalize Reading.met v.seek.2.tape.stop (Reading.token v.limit c rest).taken
        (Reading.token v.limit c rest).rest = met
      cases met with
      | some failure => exact .inr (.inl ⟨_, rfl, rfl⟩)
      | none =>
        refine .inr (.inr ⟨c, rest, v.seek.2.position, Reading.not_class_of_head hhead, ?_⟩)
        rw [Reading.placed]
        cases (Reading.token v.limit c rest).result <;> rfl

theorem sound_next {v : View} {outcome : Except LexError Placed}
    (h : v.next.1 = outcome.map some) : Sound v.limit (outcome.map Placed.token) := by
  rcases v.next_result with hend | ⟨error, herror, hstream⟩ | ⟨c, rest, start, hblank, hread⟩
  · rw [h] at hend
    cases outcome <;> cases hend
  · rw [h] at herror
    cases outcome with
    | ok placed => cases herror
    | error first =>
      cases herror
      rw [LexError.isStreamError_eq] at hstream
      obtain ⟨cause, position⟩ := error
      cases cause with
      | streamRead failure => trivial
      | _ => cases hstream
  · have hvalid : (Reading.token v.limit c rest).Valid v.limit := .token hblank rest
    have htoken := fun token => @Reading.token_valid v.limit rest c token
    rw [h, Reading.placed] at hread
    generalize Reading.token v.limit c rest = reading at hread hvalid htoken
    obtain ⟨fault | token, taken, left⟩ := reading
    · cases outcome <;> cases hread
      exact hvalid fault rfl
    · cases outcome <;> cases hread
      exact htoken token rfl

end View

namespace Lexer

variable {lexer : Lexer} {limit : Option Nat}

/-! ## What answers hand out -/

def itemsOf : Except LexError (List Token) → List (Except LexError Token)
  | .ok tokens => tokens.map .ok
  | .error error => [.error error]

/-- The tokens and errors in an answer. -/
def Answer.handed : Answer → List (Except LexError Token)
  | token result => itemsOf (result.map Option.toList)
  | placed result => itemsOf (result.map fun found => (found.map Placed.token).toList)
  | item result => result.toList
  | items list => list.map fun item => item.outcome.map Placed.token
  | count _ | config _ | nothing => []

/-- All that is handed out to these requests, and at last to a request for all tokens. -/
def handed (lexer : Lexer) (requests : List Request) : List (Except LexError Token) :=
  (lexer.session requests).flatMap (fun call => call.result.handed) ++
    itemsOf (lexer.after requests).tokenize.result

theorem handed_cons (lexer : Lexer) (request : Request) (rest : List Request) :
    lexer.handed (request :: rest) =
      (lexer.answer request).result.handed ++ (lexer.answer request).lexer.handed rest := by
  simp only [handed, Lexer.session, Lexer.after, List.flatMap_cons, List.append_assoc]

theorem handed_token (result : Except LexError (Option Placed)) :
    (Answer.token (result.map (·.map Placed.token))).handed = (Answer.placed result).handed := by
  cases result <;> rfl

theorem handed_placed (hready : lexer.Ready) :
    (Answer.placed lexer.nextPlaced.result).handed =
      lexer.outcomes.head?.toList.map (·.map Placed.token) := by
  rw [(nextPlaced_outcomes hready).1]
  rcases lexer.outcomes.head? with _ | error | placed <;> rfl

theorem handed_next (hready : lexer.Ready) :
    (Answer.item lexer.next.result).handed <+:
      lexer.outcomes.head?.toList.map (·.map Placed.token) := by
  cases hfailed : lexer.failed with
  | true =>
    rw [next_of_failed hfailed]
    exact List.nil_prefix
  | false =>
    rw [(next_outcomes hready hfailed).1]
    rcases lexer.outcomes.head? with _ | outcome <;> exact List.prefix_rfl

/-- An answer hands out outcomes of the calls that were left, the first of them first. -/
theorem handed_answer (hready : lexer.Ready) (request : Request) :
    (lexer.answer request).result.handed <+: lexer.outcomes.map (·.map Placed.token) := by
  have hfirst : lexer.outcomes.head?.toList.map (·.map Placed.token) <+:
      lexer.outcomes.map (·.map Placed.token) := by
    cases lexer.outcomes with
    | nil => exact List.prefix_rfl
    | cons outcome outcomes => exact ⟨outcomes.map (·.map Placed.token), rfl⟩
  cases request with
  | nextToken =>
    have htoken : (lexer.answer .nextToken).result.handed = _ := handed_token _
    rw [htoken, handed_placed hready]
    exact hfirst
  | nextPlaced =>
    have hplaced : (lexer.answer .nextPlaced).result.handed = _ := handed_placed hready
    rw [hplaced]
    exact hfirst
  | next => exact (handed_next hready).trans hfirst
  | scan =>
    have houtcomes : lexer.outcomes.map (·.map Placed.token) =
        lexer.scan.result.map fun item => item.outcome.map Placed.token := List.map_map
    rw [houtcomes]
    exact List.prefix_rfl
  | count | config | inspect => exact List.nil_prefix

theorem handed_tokenize (outcomes : List (Except LexError Placed)) :
    ∀ item ∈ itemsOf (outcomes.mapM (Except.map Placed.token)),
      item ∈ outcomes.map (·.map Placed.token) := by
  induction outcomes with
  | nil =>
    intro item hitem
    cases hitem
  | cons outcome outcomes ih =>
    rw [List.mapM_cons]
    intro item hitem
    cases outcome with
    | error error =>
      rw [List.mem_singleton.mp hitem]
      exact List.mem_cons_self
    | ok placed =>
      cases hrest : outcomes.mapM (Except.map Placed.token) with
      | error error =>
        rw [hrest] at hitem ih
        exact List.mem_cons_of_mem _ (ih item hitem)
      | ok later =>
        rw [hrest] at hitem ih
        rcases List.mem_cons.mp hitem with rfl | hlater
        · exact List.mem_cons_self
        · exact List.mem_cons_of_mem _ (ih item hlater)

/-! ## All of it is sound -/

/-- What holds of the outcome of each call holds of all outcomes that are left. -/
theorem Invariant.outcomes {P : Lexer → Prop} {Q : Except LexError Placed → Prop}
    (h : Invariant P)
    (hcall : ∀ lexer, P lexer → ∀ outcome, lexer.nextPlaced.result = outcome.map some → Q outcome)
    (hlexer : P lexer) : ∀ outcome ∈ lexer.outcomes, Q outcome := by
  induction lexer using scan_induction with
  | ended lexer hend =>
    rw [outcomes_of_end hend]
    intro outcome houtcome
    cases houtcome
  | item lexer first hitem ih =>
    rw [outcomes_of_item hitem]
    intro outcome houtcome
    rcases List.mem_cons.mp houtcome with rfl | hlater
    · exact hcall lexer hlexer _ hitem
    · exact ih (h.call hlexer) outcome hlater

theorem invariant_limit (limit : Option Nat) :
    Invariant fun lexer => lexer.Ready ∧ lexer.view.limit = limit where
  call := by
    rintro lexer ⟨hready, hlimit⟩
    refine ⟨ready_nextPlaced hready, ?_⟩
    rw [view_nextPlaced hready, View.limit_next, hlimit]
  fail := by
    rintro lexer ⟨hready, hlimit⟩
    refine ⟨ready_nextPlaced hready, ?_⟩
    have hnext := congrArg View.limit (view_nextPlaced hready)
    rw [View.limit_next, hlimit] at hnext
    exact hnext

theorem sound_outcomes (hready : lexer.Ready) (hlimit : lexer.view.limit = limit) :
    ∀ outcome ∈ lexer.outcomes, Sound limit (outcome.map Placed.token) := by
  refine (invariant_limit limit).outcomes (Q := fun outcome => Sound limit (outcome.map _)) ?_
    ⟨hready, hlimit⟩
  rintro lexer ⟨hready, rfl⟩ outcome houtcome
  exact View.sound_next ((result_nextPlaced hready).symm.trans houtcome)

theorem sound_handed (hready : lexer.Ready) (hlimit : lexer.view.limit = limit)
    (requests : List Request) : ∀ item ∈ lexer.handed requests, Sound limit item := by
  have hmapped : ∀ {lexer : Lexer}, lexer.Ready → lexer.view.limit = limit →
      ∀ item ∈ lexer.outcomes.map (·.map Placed.token), Sound limit item := by
    intro lexer hready hlimit item hitem
    obtain ⟨outcome, houtcome, rfl⟩ := List.mem_map.mp hitem
    exact sound_outcomes hready hlimit outcome houtcome
  induction requests generalizing lexer with
  | nil =>
    intro item hitem
    have htokens : item ∈ itemsOf lexer.tokenize.result := hitem
    cases hfailed : lexer.failed with
    | true =>
      rw [tokenize_of_failed hfailed] at htokens
      cases htokens
    | false =>
      rw [tokenize_eq_mapM hfailed] at htokens
      exact hmapped hready hlimit item (handed_tokenize _ item htokens)
  | cons request rest ih =>
    obtain ⟨hnext, hnextLimit⟩ := (invariant_limit limit).answer ⟨hready, hlimit⟩ request
    intro item hitem
    rw [handed_cons] at hitem
    rcases List.mem_append.mp hitem with hnow | hlater
    · exact hmapped hready hlimit item ((handed_answer hready request).subset hnow)
    · exact ih hnext hnextLimit item hlater

/-- Whatever the stream does and whatever is asked for, every token that is handed out is valid, and
so is the cause of every error. -/
theorem handed_sound (reader : Reader) (config : Config) (requests : List Request) :
    ∀ item ∈ (new reader config).handed requests, Sound config.maxLiteralLength item :=
  sound_handed (ready_new reader config) rfl requests

/-- Errors of every kind of literal among words and numbers, and bytes that are no text. -/
theorem handed_sound_mixed :
    let text := "x1 7. if & 99999999999 \"\\q\" 0.5 abcdefghijklm 99999".toList
    let reader : Reader := ⟨[.data (Utf8.encode text), .data [0xff]]⟩
    let config : Config := { maxLiteralLength := some 11 }
    let items := (new reader config).handed [.next, .nextToken, .scan]
    items.map (fun item => (errorsOf item).map LexError.cause) =
        [[], [.malformedNumber "7."], [], [.unrecognizedOperator "&"],
          [.numberOverflow "99999999999"], [.invalidEscape 'q'], [.literalTooLong 11], [],
          [.streamRead (.invalidLead 0xff 51)]] ∧
      ∀ item ∈ items, Sound (some 11) item := by
  intro text reader config items
  have hsound : ∀ item ∈ items, Sound (some 11) item :=
    handed_sound reader config [.next, .nextToken, .scan]
  exact ⟨by decide +kernel, hsound⟩

end Lexer

end StreamLexer
