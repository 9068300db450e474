import Mathlib.Control.Monad.Basic
import StreamLexer.Proofs.Lexer.Pulling

/-! # What a list of all tokens leaves out

`tokenize` takes what `next` still gives. As long as `next` has given no error this is the rest of
the stream: there are tokens if and only if single calls give the same tokens and then find the end.
Once `next` has given an error it is silent, so the list is empty whatever is left in the stream.
-/

set_option autoImplicit false

namespace StreamLexer.Lexer

variable {lexer : Lexer} {tokens : List Token}

/-- The next calls give these tokens, and all calls behind them find the end. -/
def Gives (lexer : Lexer) (tokens : List Token) : Prop :=
  ∀ more, (lexer.session (List.replicate (tokens.length + more) .nextToken)).map Call.result =
    tokens.map (fun token => .token (.ok (some token))) ++ List.replicate more (.token (.ok none))

/-! ## Single calls -/

theorem replies_nextToken (outcomes : List (Except LexError Placed)) (failed : Bool)
    (requests : List Request) :
    replies outcomes failed (.nextToken :: requests) =
      Request.nextToken.reply outcomes.head? :: replies outcomes.tail failed requests := by
  have hloud : ¬(failed && Request.nextToken = .next) = true := by simp
  rw [replies, if_neg hloud]
  exact congrArg (fun later => _ :: replies outcomes.tail later requests) (Bool.or_false failed)

theorem replies_placed (placed : List Placed) (failed : Bool) (more : Nat) :
    replies (placed.map .ok) failed (List.replicate (placed.length + more) .nextToken) =
      placed.map (fun first => .token (.ok (some first.token))) ++
        List.replicate more (.token (.ok none)) := by
  induction placed with
  | nil =>
    rw [List.length_nil, Nat.zero_add]
    induction more with
    | zero => rfl
    | succ more ih =>
      rw [List.replicate_succ, replies_nextToken]
      exact congrArg _ ih
  | cons first placed ih =>
    rw [List.length_cons, Nat.add_right_comm, List.replicate_succ, replies_nextToken]
    exact congrArg _ ih

/-- Replies that give tokens up to the end leave no room for an error. -/
theorem placed_of_replies {outcomes : List (Except LexError Placed)} {failed : Bool}
    (h : replies outcomes failed (List.replicate (tokens.length + 1) .nextToken) =
      tokens.map (fun token => .token (.ok (some token))) ++ [.token (.ok none)]) :
    ∃ placed : List Placed, outcomes = placed.map .ok ∧ placed.map Placed.token = tokens := by
  induction tokens generalizing outcomes with
  | nil =>
    rw [List.length_nil, Nat.zero_add, List.replicate_one, replies_nextToken] at h
    have hfirst := (List.cons_eq_cons.mp h).1
    rcases outcomes with _ | ⟨error | placed, outcomes⟩
    · exact ⟨[], rfl, rfl⟩
    · cases hfirst
    · cases hfirst
  | cons token tokens ih =>
    rw [List.length_cons, List.replicate_succ, replies_nextToken] at h
    obtain ⟨hfirst, hlater⟩ := List.cons_eq_cons.mp h
    rcases outcomes with _ | ⟨error | first, outcomes⟩
    · cases hfirst
    · cases hfirst
    · cases hfirst
      obtain ⟨placed, rfl, rfl⟩ := ih hlater
      exact ⟨first :: placed, rfl, rfl⟩

theorem gives_iff_outcomes (hready : lexer.Ready) :
    lexer.Gives tokens ↔
      ∃ placed : List Placed, lexer.outcomes = placed.map .ok ∧
        placed.map Placed.token = tokens := by
  have hsession : ∀ more, (lexer.session (List.replicate more .nextToken)).map Call.result =
      replies lexer.outcomes lexer.failed (List.replicate more .nextToken) := fun more =>
    session_replies hready fun request hmem => List.eq_of_mem_replicate hmem ▸ rfl
  constructor
  · intro h
    apply placed_of_replies
    rw [← hsession, h 1]
    rfl
  · rintro ⟨placed, houtcomes, rfl⟩ more
    rw [hsession, houtcomes, List.length_map, List.map_map]
    exact replies_placed placed lexer.failed more

/-! ## All tokens at once -/

theorem tokenize_of_failed (h : lexer.failed = true) : lexer.tokenize.result = .ok [] := by
  rw [tokenize, drain_of_none (congrArg Call.result (next_of_failed h))]
  rfl

/-- After pulls of all kinds: if one of them was answered by `next` with an error, the list of all
tokens is empty, whatever is left. If none was, there is a list of tokens if and only if single calls
would give the same tokens, without any error, and then find the end for good. -/
theorem tokenize_iff_gives (reader : Reader) (config : Config) (requests : List Request)
    (hpulls : ∀ request ∈ requests, request.isPull = true) :
    let lexer := (new reader config).after requests
    let silenced := ∃ call ∈ (new reader config).session requests, call.result.isFailedItem = true
    (silenced → lexer.tokenize.result = .ok []) ∧
      (¬silenced → ∀ tokens, lexer.tokenize.result = .ok tokens ↔ lexer.Gives tokens) := by
  intro lexer silenced
  have hready : (new reader config).Ready := ready_new reader config
  constructor
  · intro hsilenced
    exact tokenize_of_failed <|
      invariant_failed.after_of_answer (·.isFailedItem = true) failed_of_item hready hsilenced
  · intro hloud tokens
    have hgood : ∀ call ∈ (new reader config).session requests,
        call.result.isFailedItem = false := fun call hcall =>
      Bool.eq_false_iff.mpr fun hfailed => hloud ⟨call, hcall, hfailed⟩
    obtain ⟨-, hfailed⟩ := outcomes_after hready rfl hpulls hgood
    rw [tokenize_iff_outcomes hfailed, gives_iff_outcomes (invariant_ready.after hready requests)]

/-- An error that `nextToken` has given does not matter; the same error given by `next` does. -/
theorem tokenize_iff_gives_faulty :
    let first := new (.ofBytes (Utf8.encode "@ b".toList)) {}
    (∀ request ∈ [.nextToken], Request.isPull request = true) ∧
      (∀ request ∈ [.next], Request.isPull request = true) ∧
      (first.after [.nextToken]).tokenize.result = .ok [.identifier "b"] ∧
      (first.after [.nextToken]).Gives [.identifier "b"] ∧
      (first.after [.next]).tokenize.result = .ok [] := by
  intro first
  have htoken : ∀ request ∈ [.nextToken], Request.isPull request = true := by decide
  have hnext : ∀ request ∈ [.next], Request.isPull request = true := by decide
  have hloud : ¬∃ call ∈ first.session [.nextToken], call.result.isFailedItem = true := by
    rintro ⟨call, hcall, hfailed⟩
    rw [List.mem_singleton.mp hcall] at hfailed
    cases hfailed
  have hsilenced : ∃ call ∈ first.session [.next], call.result.isFailedItem = true :=
    List.any_eq_true.mp (by decide +kernel)
  have htokens : (first.after [.nextToken]).tokenize.result = .ok [.identifier "b"] := by
    decide +kernel
  refine ⟨htoken, hnext, htokens, ?_, ?_⟩
  · exact ((tokenize_iff_gives _ _ _ htoken).2 hloud _).mp htokens
  · exact (tokenize_iff_gives _ _ _ hnext).1 hsilenced

/-- Behind an error that `next` has given the list is empty, and yet a word is left. -/
theorem tokenize_omits :
    let lexer := (new (.ofBytes (Utf8.encode "@ b".toList)) {}).after [.next]
    lexer.tokenize.result = .ok [] ∧ lexer.nextToken.result = .ok (some (.identifier "b")) ∧
      ¬lexer.Gives [] := by
  intro lexer
  have hempty : lexer.tokenize.result = .ok [] := by decide +kernel
  have hword : lexer.nextToken.result = .ok (some (.identifier "b")) := by decide +kernel
  refine ⟨hempty, hword, fun hgives => ?_⟩
  have hend : lexer.nextToken.result = .ok none :=
    Answer.token.inj (List.cons_eq_cons.mp (hgives 1)).1
  rw [hword] at hend
  cases hend

end StreamLexer.Lexer
