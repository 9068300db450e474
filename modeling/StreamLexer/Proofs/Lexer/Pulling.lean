import StreamLexer.Proofs.Lexer.Finality
import StreamLexer.Proofs.Lexer.Memory

/-! # All ways of asking for a token agree

The three requests for a token take the outcomes of one sequence, in whatever order they come. Only
`next` falls silent: once it has given an error it takes nothing and leaves the lexer as it is, and
it stays silent.
-/

set_option autoImplicit false

namespace StreamLexer.Lexer

variable {lexer : Lexer} {request : Request} {requests : List Request}

/-- A request for one token. -/
def Request.isPull : Request → Bool
  | nextToken | nextPlaced | next => true
  | count | scan | config | inspect => false

/-- The answer to a pull when this outcome comes next, or when there is none. -/
def Request.reply (request : Request) (outcome : Option (Except LexError Placed)) : Answer :=
  match request with
  | nextToken => .token (outcome.elim (.ok none) (·.map fun placed => some placed.token))
  | nextPlaced => .placed (outcome.elim (.ok none) (·.map some))
  | next => .item (outcome.map (·.map Placed.token))
  | count | scan | config | inspect => .nothing

/-- An error that was given by `next`. -/
def Answer.isFailedItem : Answer → Bool
  | item (some (.error _)) => true
  | _ => false

/-- The answers to pulls in front of these outcomes. Each takes an outcome as long as there is one,
except that `next` neither gives nor takes anything once it has given an error. -/
def replies (outcomes : List (Except LexError Placed)) (failed : Bool) :
    List Request → List Answer
  | [] => []
  | request :: rest =>
    if failed && request = .next then .item none :: replies outcomes failed rest
    else
      let answer := request.reply outcomes.head?
      answer :: replies outcomes.tail (failed || answer.isFailedItem) rest

/-! ## One pull -/

theorem next_of_failed (h : lexer.failed = true) : lexer.next = ⟨none, [], lexer⟩ := if_pos h

theorem nextPlaced_outcomes (hready : lexer.Ready) :
    lexer.nextPlaced.result = lexer.outcomes.head?.elim (.ok none) (·.map some) ∧
      lexer.nextPlaced.lexer.outcomes = lexer.outcomes.tail := by
  rcases end_or_item lexer with hend | ⟨outcome, hitem⟩
  · have hover := over_of_end hready hend
    rw [outcomes_of_end hend]
    exact ⟨hend, congrArg (List.map Item.outcome) hover.scan⟩
  · rw [outcomes_of_item hitem]
    exact ⟨hitem, rfl⟩

theorem next_outcomes (hready : lexer.Ready) (hfailed : lexer.failed = false) :
    lexer.next.result = lexer.outcomes.head?.map (·.map Placed.token) ∧
      lexer.next.lexer =
        lexer.nextPlaced.lexer.withFailed (Answer.item lexer.next.result).isFailedItem := by
  obtain ⟨hresult, -⟩ := nextPlaced_outcomes hready
  have hkept : lexer.nextPlaced.lexer = lexer.nextPlaced.lexer.withFailed false := by
    rw [withFailed, ← hfailed, ← failed_nextPlaced]
  have hnot : ¬lexer.failed = true := by simp [hfailed]
  rw [next, if_neg hnot, nextToken, Call.map]
  generalize lexer.nextPlaced = call at hresult hkept ⊢
  obtain ⟨result, events, last⟩ := call
  subst hresult
  rcases lexer.outcomes.head? with _ | error | placed
  · exact ⟨rfl, hkept⟩
  · exact ⟨rfl, rfl⟩
  · exact ⟨rfl, hkept⟩

/-- A pull that is not silent takes the next outcome. -/
theorem answer_outcomes (hready : lexer.Ready) (hpull : request.isPull = true)
    (hloud : ¬(lexer.failed && request = .next) = true) :
    (lexer.answer request).result = request.reply lexer.outcomes.head? ∧
      (lexer.answer request).lexer.outcomes = lexer.outcomes.tail ∧
      (lexer.answer request).lexer.failed =
        (lexer.failed || (lexer.answer request).result.isFailedItem) := by
  obtain ⟨hresult, houtcomes⟩ := nextPlaced_outcomes hready
  have hfailed := lexer.failed_nextPlaced
  cases request with
  | nextToken =>
    refine ⟨congrArg Answer.token ?_, houtcomes, ?_⟩
    · rw [nextToken, Call.map, hresult]
      rcases lexer.outcomes.head? with _ | error | placed <;> rfl
    · rw [← hfailed]
      exact (Bool.or_false _).symm
  | nextPlaced =>
    refine ⟨congrArg Answer.placed hresult, houtcomes, ?_⟩
    rw [← hfailed]
    exact (Bool.or_false _).symm
  | next =>
    have hunfailed : lexer.failed = false := by simpa using hloud
    obtain ⟨hitem, hlexer⟩ := next_outcomes hready hunfailed
    have hnext : (lexer.answer .next).lexer = _ := hlexer
    rw [hnext, hunfailed, Bool.false_or, outcomes_withFailed]
    exact ⟨congrArg Answer.item hitem, houtcomes, rfl⟩
  | count | scan | config | inspect => cases hpull

/-! ## Any number of pulls -/

theorem session_replies (hready : lexer.Ready)
    (hpulls : ∀ request ∈ requests, request.isPull = true) :
    (lexer.session requests).map Call.result = replies lexer.outcomes lexer.failed requests := by
  induction requests generalizing lexer with
  | nil => rfl
  | cons request rest ih =>
    have hrest := fun request hmem => hpulls request (List.mem_cons_of_mem _ hmem)
    rw [session, List.map_cons, replies]
    split
    · rename_i hsilent
      simp only [Bool.and_eq_true, decide_eq_true_eq] at hsilent
      obtain ⟨hfailed, rfl⟩ := hsilent
      have hnext : lexer.answer .next = ⟨.item none, [], lexer⟩ := by
        rw [answer, next_of_failed hfailed]
        rfl
      rw [hnext, ih hready hrest]
    · rename_i hloud
      obtain ⟨hresult, houtcomes, hfailed⟩ :=
        answer_outcomes hready (hpulls request List.mem_cons_self) hloud
      rw [ih (invariant_ready.answer hready request) hrest, houtcomes, hfailed, hresult]

/-- As long as no error is given by `next`, every pull takes one outcome. -/
theorem outcomes_after (hready : lexer.Ready) (hfailed : lexer.failed = false)
    (hpulls : ∀ request ∈ requests, request.isPull = true)
    (hgood : ∀ call ∈ lexer.session requests, call.result.isFailedItem = false) :
    (lexer.after requests).outcomes = lexer.outcomes.drop requests.length ∧
      (lexer.after requests).failed = false := by
  induction requests generalizing lexer with
  | nil => exact ⟨rfl, hfailed⟩
  | cons request rest ih =>
    obtain ⟨-, houtcomes, hnext⟩ :=
      answer_outcomes hready (hpulls request List.mem_cons_self) (by simp [hfailed])
    rw [hfailed, hgood _ List.mem_cons_self] at hnext
    obtain ⟨hlast, hlastFailed⟩ := ih (invariant_ready.answer hready request) hnext
      (fun request hmem => hpulls request (List.mem_cons_of_mem _ hmem))
      (fun call hmem => hgood call (List.mem_cons_of_mem _ hmem))
    rw [houtcomes, List.drop_tail] at hlast
    exact ⟨hlast, hlastFailed⟩

/-! ## Silence -/

/-- What every request keeps holds behind all requests, if it holds behind answers of a kind and
one of the answers is of this kind. -/
theorem Invariant.after_of_answer {P : Lexer → Prop} (h : Invariant P) (A : Answer → Prop)
    (hanswer : ∀ {lexer : Lexer} {request : Request}, lexer.Ready →
      A (lexer.answer request).result → P (lexer.answer request).lexer)
    (hready : lexer.Ready) (hgiven : ∃ call ∈ lexer.session requests, A call.result) :
    P (lexer.after requests) := by
  induction requests generalizing lexer with
  | nil =>
    obtain ⟨call, hcall, -⟩ := hgiven
    cases hcall
  | cons request rest ih =>
    obtain ⟨call, hcall, hkind⟩ := hgiven
    rcases List.mem_cons.mp hcall with rfl | hlater
    · exact h.after (hanswer hready hkind) rest
    · exact ih (invariant_ready.answer hready request) ⟨call, hlater, hkind⟩

theorem invariant_failed : Invariant fun lexer => lexer.failed = true where
  call h := (failed_nextPlaced _).trans h
  fail _ := rfl

theorem failed_of_item (hready : lexer.Ready)
    (h : (lexer.answer request).result.isFailedItem = true) :
    (lexer.answer request).lexer.failed = true := by
  cases request with
  | next =>
    cases hfailed : lexer.failed with
    | true => exact invariant_failed.answer hfailed .next
    | false =>
      obtain ⟨-, -, hnext⟩ := @answer_outcomes lexer .next hready rfl (by simp [hfailed])
      rw [hnext, h, Bool.or_true]
  | nextToken | nextPlaced | count | scan | config | inspect => cases h

/-- Nothing comes from `next` any more. -/
def Silent (lexer : Lexer) : Prop := lexer.failed = true ∨ lexer.Over

theorem invariant_silent : Invariant Silent where
  call := by
    rintro lexer (hfailed | hover)
    · exact .inl (invariant_failed.call hfailed)
    · exact .inr (hover.keeps .nextPlaced).1
  fail _ := .inl rfl

theorem Silent.next (h : lexer.Silent) : lexer.next.result = none := by
  rcases h with hfailed | hover
  · rw [next_of_failed hfailed]
  · exact hover.next

theorem silent_of_none (hready : lexer.Ready) (h : (lexer.answer request).result = .item none) :
    (lexer.answer request).lexer.Silent := by
  cases request with
  | next =>
    have hnone : lexer.next.result = none := Answer.item.inj h
    cases hfailed : lexer.failed with
    | true => exact invariant_silent.answer (.inl hfailed) .next
    | false =>
      have hover : lexer.next.lexer.Over := over_of_next hready (by
        obtain ⟨-, hlexer⟩ := next_outcomes hready hfailed
        rw [hlexer, hnone]
        rfl)
      exact .inr hover
  | nextToken | nextPlaced | count | scan | config | inspect => cases h

/-- Pulls of all kinds take the outcomes of one scan, in order and up to its end, as long as `next`
is not silent. Once it has given an error it gives nothing and leaves the lexer as it is; once it has
given nothing it never gives anything again, whatever else is asked for. All tokens that are left are
the remaining outcomes, or the first error among them. -/
theorem pulls_agree (reader : Reader) (config : Config) :
    let lexer := new reader config
    (∀ requests, (∀ request ∈ requests, request.isPull = true) →
        (lexer.session requests).map Call.result = replies lexer.outcomes false requests) ∧
      (∀ requests, (∃ call ∈ lexer.session requests, call.result.isFailedItem = true) →
        (lexer.after requests).answer .next = ⟨.item none, [], lexer.after requests⟩) ∧
      (∀ requests, (∃ call ∈ lexer.session requests, call.result = .item none) →
        ((lexer.after requests).answer .next).result = .item none) ∧
      ∀ requests, (∀ request ∈ requests, request.isPull = true) →
        (∀ call ∈ lexer.session requests, call.result.isFailedItem = false) →
        let remaining := lexer.outcomes.drop requests.length
        let tokens := (lexer.after requests).tokenize.result
        (∀ placed : List Placed, remaining = placed.map .ok →
            tokens = .ok (placed.map Placed.token)) ∧
          ∀ (before : List Placed) (error : LexError) (later : List (Except LexError Placed)),
            remaining = before.map .ok ++ .error error :: later → tokens = .error error := by
  intro lexer
  have hready : lexer.Ready := ready_new reader config
  refine ⟨fun requests => session_replies hready, ?_, ?_, ?_⟩
  · intro requests hgiven
    have hfailed := invariant_failed.after_of_answer (·.isFailedItem = true) failed_of_item hready
      hgiven
    rw [answer, next_of_failed hfailed]
    rfl
  · intro requests hgiven
    have hsilent := invariant_silent.after_of_answer (· = .item none) silent_of_none hready hgiven
    exact congrArg Answer.item hsilent.next
  · intro requests hpulls hgood remaining tokens
    obtain ⟨houtcomes, hfailed⟩ := outcomes_after hready rfl hpulls hgood
    constructor
    · intro placed hremaining
      exact (tokenize_iff_outcomes hfailed).mpr ⟨placed, houtcomes.trans hremaining, rfl⟩
    · intro before error later hremaining
      have htokens : tokens = remaining.mapM (Except.map Placed.token) :=
        (tokenize_eq_mapM hfailed).trans (congrArg _ houtcomes)
      rw [htokens, hremaining, mapM_of_error]

/-- The second of three items is an error, which `next` gives. -/
theorem pulls_agree_mixed :
    let lexer := new (.ofBytes (Utf8.encode "x 1. y".toList)) {}
    let requests : List Request := [.nextToken, .next, .next, .nextPlaced, .next, .nextToken]
    let error : LexError := ⟨.malformedNumber "1.", ⟨1, 3, 2⟩⟩
    (∀ request ∈ requests, request.isPull = true) ∧
      (lexer.session requests).map Call.result = replies lexer.outcomes false requests ∧
      lexer.outcomes.map errorsOf = [[], [error], []] ∧
      (lexer.after requests).answer .next = ⟨.item none, [], lexer.after requests⟩ ∧
      (lexer.after [.nextToken]).tokenize.result = .error error := by
  intro lexer requests error
  obtain ⟨hreplies, hsilent, -, htokens⟩ := pulls_agree (.ofBytes (Utf8.encode "x 1. y".toList)) {}
  have hpulls : ∀ request ∈ requests, request.isPull = true := by decide
  have hgiven : ∃ call ∈ lexer.session requests, call.result.isFailedItem = true :=
    List.any_eq_true.mp (by decide +kernel)
  have herrors : lexer.outcomes.map errorsOf = [[], [error], []] := by decide +kernel
  refine ⟨hpulls, hreplies requests hpulls, herrors, hsilent requests hgiven, ?_⟩
  obtain ⟨word, rest, houtcomes, -, hrest⟩ := List.map_eq_cons_iff.mp herrors
  obtain ⟨second, later, rfl, hsecond, -⟩ := List.map_eq_cons_iff.mp hrest
  obtain rfl : second = .error error := by
    cases second with
    | ok placed => cases hsecond
    | error found => rw [List.singleton_inj.mp hsecond]
  have hgood : ∀ call ∈ lexer.session [.nextToken], call.result.isFailedItem = false := by
    intro call hcall
    rw [List.mem_singleton.mp hcall]
    rfl
  have hremaining : lexer.outcomes.drop 1 = ([] : List Placed).map .ok ++ .error error :: later := by
    rw [houtcomes]
    rfl
  exact (htokens [.nextToken] (by decide) hgood).2 [] error later hremaining

end StreamLexer.Lexer
