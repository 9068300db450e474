import StreamLexer.Proofs.Lexer.Exhaustion

/-! # The end of the stream is final

The first call starts a lexer for good. The answer that tells of the end of the stream, or of its
failure, leaves the lexer behind the end, and so it is final: whatever the stream delivers after
that, no request reads it. It follows that a lexer reports one failure of its stream at most.
-/

set_option autoImplicit false

namespace StreamLexer.Lexer

variable {lexer : Lexer} {error : LexError} {request : Request}

/-! ## Up to the end -/

/-- The answer tells that the stream is at its end or has failed. What `next` does not give is the
end only if no error is remembered. -/
def Answer.isFinal (failed : Bool) : Answer → Bool
  | token (.ok none) | placed (.ok none) => true
  | token (.error error) | placed (.error error) | item (some (.error error)) =>
    error.isStreamError
  | item none => !failed
  | items _ => true
  | _ => false

theorem over_of_next (hready : lexer.Ready)
    (h : (Answer.item lexer.next.result).isFinal lexer.next.lexer.failed = true) :
    lexer.next.lexer.Over := by
  cases hfailed : lexer.failed with
  | true => simp [Lexer.next, hfailed, Answer.isFinal] at h
  | false =>
    have hend := @over_of_end lexer hready
    have hstream := @over_of_stream lexer
    rw [Lexer.next, hfailed, nextToken, Call.map] at h ⊢
    generalize lexer.nextPlaced = call at h hend hstream ⊢
    obtain ⟨error | _ | placed, events, last⟩ := call
    · have hover := hstream hready rfl h
      exact ⟨hover.started, hover.empty⟩
    · exact hend rfl
    · cases h

theorem over_of_placed (hready : lexer.Ready) {failed : Bool}
    (h : (Answer.placed lexer.nextPlaced.result).isFinal failed = true) :
    lexer.nextPlaced.lexer.Over := by
  cases hresult : lexer.nextPlaced.result with
  | error error =>
    rw [hresult] at h
    exact over_of_stream hready hresult h
  | ok found =>
    cases found with
    | none => exact over_of_end hready hresult
    | some placed =>
      rw [hresult] at h
      cases h

theorem isFinal_token (result : Except LexError (Option Placed)) (failed : Bool) :
    (Answer.token (result.map (·.map Placed.token))).isFinal failed =
      (Answer.placed result).isFinal failed := by
  cases result with
  | error error => rfl
  | ok found => cases found <;> rfl

theorem over_of_final (hready : lexer.Ready)
    (h : (lexer.answer request).result.isFinal (lexer.answer request).lexer.failed = true) :
    (lexer.answer request).lexer.Over := by
  cases request with
  | nextToken => exact over_of_placed hready ((isFinal_token _ _).symm.trans h)
  | nextPlaced => exact over_of_placed hready h
  | next => exact over_of_next hready h
  | scan => exact over_scan hready
  | count | config | inspect => cases h

theorem invariant_ready : Invariant Ready where
  call := ready_nextPlaced
  fail := ready_nextPlaced

/-! ## The first call -/

def Request.isCall : Request → Bool
  | nextToken | nextPlaced | next | count | scan => true
  | config | inspect => false

/-- Before the first call nothing is read and no error is remembered. -/
structure Coherent (lexer : Lexer) : Prop where
  ready : lexer.Ready
  unfailed : lexer.phase = .fresh → lexer.failed = false

theorem invariant_started : Invariant fun lexer => lexer.Ready ∧ lexer.phase = .started where
  call h := ⟨ready_nextPlaced h.1, started_nextPlaced h.1⟩
  fail h := ⟨ready_nextPlaced h.1, started_nextPlaced h.1⟩

theorem Coherent.next (h : lexer.Coherent) : lexer.next.lexer.phase = .started := by
  have hstarted := started_nextPlaced h.ready
  have hunfailed := h.unfailed
  simp only [Lexer.next, nextToken, Call.map]
  split
  · rename_i hfailed
    cases hphase : lexer.phase with
    | started => rfl
    | fresh =>
      rw [hunfailed hphase] at hfailed
      cases hfailed
  · generalize lexer.nextPlaced = call at hstarted
    obtain ⟨_ | _ | placed, events, last⟩ := call <;> exact hstarted

theorem Coherent.answer (h : lexer.Coherent) (hcall : request.isCall = true) :
    (lexer.answer request).lexer.phase = .started := by
  have hstarted := started_nextPlaced h.ready
  have hready := ready_nextPlaced h.ready
  cases request with
  | nextToken => exact hstarted
  | nextPlaced => exact hstarted
  | next => exact h.next
  | count =>
    have hnext := h.next
    have hnextReady := invariant_ready.next h.ready
    change lexer.drain.lexer.phase = .started
    cases hresult : lexer.next.result with
    | none =>
      rw [drain_of_none hresult]
      exact hnext
    | some item =>
      rw [drain_of_some hresult]
      exact (invariant_started.drain ⟨hnextReady, hnext⟩).2
  | scan => exact (over_scan h.ready).started
  | config => cases hcall
  | inspect => cases hcall

theorem Coherent.after (h : lexer.Coherent) (requests : List Request) :
    (lexer.after requests).phase =
      if requests.any Request.isCall then .started else lexer.phase := by
  induction requests generalizing lexer with
  | nil => rfl
  | cons request rest ih =>
    cases hcall : request.isCall with
    | true =>
      have hstarted := h.answer hcall
      have hafter := invariant_started.after
        ⟨invariant_ready.answer h.ready request, hstarted⟩ rest
      rw [List.any_cons, hcall]
      exact hafter.2
    | false =>
      have hsame : (lexer.answer request).lexer = lexer := by
        cases request <;> first | rfl | cases hcall
      rw [List.any_cons, hcall, Bool.false_or, ← ih h, Lexer.after, hsame]

theorem coherent_new (reader : Reader) (config : Config) : (new reader config).Coherent :=
  ⟨ready_new reader config, fun _ => rfl⟩

/-! ## Failures of the stream -/

def errorsOf {α : Type} : Except LexError α → List LexError
  | .ok _ => []
  | .error error => [error]

def Answer.errors : Answer → List LexError
  | token result => errorsOf result
  | placed result => errorsOf result
  | item result => result.elim [] errorsOf
  | items list => list.flatMap fun item => errorsOf item.outcome
  | count _ | config _ | nothing => []

/-- All errors that are returned to these requests, and at last to a request for all tokens. -/
def errors (lexer : Lexer) (requests : List Request) : List LexError :=
  (lexer.session requests).flatMap (fun call => call.result.errors) ++
    errorsOf (lexer.after requests).tokenize.result

theorem errors_cons (lexer : Lexer) (request : Request) (rest : List Request) :
    lexer.errors (request :: rest) =
      (lexer.answer request).result.errors ++ (lexer.answer request).lexer.errors rest := by
  simp only [errors, Lexer.session, Lexer.after, List.flatMap_cons, List.append_assoc]

theorem Answer.errors_of_spent {answer : Answer} (h : answer.isSpent = true) :
    answer.errors = [] := by
  cases answer with
  | token result =>
    cases result with
    | ok found => rfl
    | error error => cases h
  | placed result =>
    cases result with
    | ok found => rfl
    | error error => cases h
  | item result =>
    cases result with
    | none => rfl
    | some result => cases h
  | items list =>
    cases list with
    | nil => rfl
    | cons first rest => cases h
  | count items => rfl
  | config settings => rfl
  | nothing => rfl

theorem Over.errors (h : lexer.Over) (requests : List Request) : lexer.errors requests = [] := by
  induction requests generalizing lexer with
  | nil =>
    simp only [Lexer.errors, Lexer.session, Lexer.after, tokenize, Call.map, h.drain]
    rfl
  | cons request rest ih =>
    obtain ⟨hover, -⟩ := h.keeps request
    rw [errors_cons, Answer.errors_of_spent (h.spent request), ih hover]
    rfl

theorem countP_errorsOf_le {α : Type} (result : Except LexError α) :
    (errorsOf result).countP LexError.isStreamError ≤ 1 := by
  apply Nat.le_trans List.countP_le_length
  cases result <;> simp [errorsOf]

theorem countP_scan_le (hready : lexer.Ready) :
    (lexer.scan.result.flatMap fun item => errorsOf item.outcome).countP
      LexError.isStreamError ≤ 1 := by
  induction lexer using scan_induction with
  | ended lexer hend =>
    rw [scan_of_end hend]
    exact Nat.zero_le _
  | item lexer outcome hitem ih =>
    have hrest := ih (ready_nextPlaced hready)
    rw [scan_of_item hitem, List.flatMap_cons, List.countP_append]
    cases outcome with
    | ok placed => simpa [errorsOf] using hrest
    | error error =>
      cases hstream : error.isStreamError with
      | false => simpa [errorsOf, hstream] using hrest
      | true =>
        have hover := over_of_stream hready hitem hstream
        have hend : lexer.nextPlaced.lexer.nextPlaced.result = .ok none := by
          rw [hover.nextPlaced]
        rw [scan_of_end hend]
        simp [errorsOf, hstream]

theorem isStreamError_of_countP {α : Type} {result : Except LexError α}
    (h : 0 < (errorsOf result).countP LexError.isStreamError) :
    ∃ error, result = .error error ∧ error.isStreamError = true := by
  cases result with
  | ok a => cases h
  | error error =>
    obtain ⟨found, hfound, hstream⟩ := List.countP_pos_iff.mp h
    exact ⟨error, rfl, List.mem_singleton.mp hfound ▸ hstream⟩

/-- An answer tells of one failure at most, and only if it is final. -/
theorem countP_answer (hready : lexer.Ready) (request : Request) :
    (lexer.answer request).result.errors.countP LexError.isStreamError ≤ 1 ∧
      (0 < (lexer.answer request).result.errors.countP LexError.isStreamError →
        (lexer.answer request).result.isFinal (lexer.answer request).lexer.failed = true) := by
  have hsilent : ∀ {P : Prop}, 0 < ([] : List LexError).countP LexError.isStreamError → P :=
    fun hpos => absurd hpos (Nat.lt_irrefl 0)
  cases request with
  | nextToken =>
    refine ⟨countP_errorsOf_le _, fun hpos => ?_⟩
    obtain ⟨error, hresult, hstream⟩ := isStreamError_of_countP hpos
    rw [answer, Call.map, hresult]
    exact hstream
  | nextPlaced =>
    refine ⟨countP_errorsOf_le _, fun hpos => ?_⟩
    obtain ⟨error, hresult, hstream⟩ := isStreamError_of_countP hpos
    rw [answer, Call.map, hresult]
    exact hstream
  | next =>
    rw [answer, Call.map]
    cases hresult : lexer.next.result with
    | none => exact ⟨Nat.zero_le _, hsilent⟩
    | some result =>
      refine ⟨countP_errorsOf_le result, fun hpos => ?_⟩
      obtain ⟨error, rfl, hstream⟩ := isStreamError_of_countP hpos
      exact hstream
  | scan => exact ⟨countP_scan_le hready, fun _ => rfl⟩
  | count | config | inspect => exact ⟨Nat.zero_le _, hsilent⟩

theorem countP_errors_le (hready : lexer.Ready) (requests : List Request) :
    (lexer.errors requests).countP LexError.isStreamError ≤ 1 := by
  induction requests generalizing lexer with
  | nil => exact countP_errorsOf_le _
  | cons request rest ih =>
    obtain ⟨hone, hfinal⟩ := countP_answer hready request
    rw [errors_cons, List.countP_append]
    by_cases hpos : 0 < (lexer.answer request).result.errors.countP LexError.isStreamError
    · have hover := over_of_final hready (hfinal hpos)
      rw [hover.errors rest]
      exact hone
    · have hrest := ih (invariant_ready.answer hready request)
      omega

/-- The same lexer in front of another source. -/
def withSource (lexer : Lexer) (source : Source) : Lexer :=
  { lexer with cursor := { lexer.cursor with source } }

/-- A new lexer has read nothing and the first call starts it for good, whatever comes of the call.
Once an answer is final, whichever source stands behind the lexer, no request finds anything there,
reads from it or moves the position; and one failure of the stream is reported at most. -/
theorem end_is_final (reader : Reader) (config : Config) :
    let lexer := new reader config
    (lexer.release = reader ∧ lexer.phase = .fresh ∧ lexer.position = .start) ∧
      (∀ requests, (lexer.after requests).phase =
        if requests.any Request.isCall then .started else .fresh) ∧
      (∀ requests request later source,
        let call := (lexer.after requests).answer request
        call.result.isFinal call.lexer.failed = true →
          ∀ last ∈ (call.lexer.withSource source).session later,
            last.result.isSpent = true ∧ last.lexer.cursor.source = source ∧
              last.lexer.position = call.lexer.position) ∧
      ∀ requests, (lexer.errors requests).countP LexError.isStreamError ≤ 1 := by
  intro lexer
  have hready : lexer.Ready := ready_new reader config
  refine ⟨⟨rfl, rfl, rfl⟩, (coherent_new reader config).after, ?_, countP_errors_le hready⟩
  intro requests request later source call hfinal last hlast
  have hover : call.lexer.Over := over_of_final (invariant_ready.after hready requests) hfinal
  have hsource : (call.lexer.withSource source).Over := ⟨hover.started, hover.empty⟩
  obtain ⟨hspent, hcursor⟩ := hsource.session later last hlast
  have hposition : last.lexer.cursor.position = (call.lexer.withSource source).cursor.position :=
    congrArg Cursor.position hcursor
  exact ⟨hspent, congrArg Cursor.source hcursor, hposition⟩

/-- A word, a failure, and then more of both words and ends. -/
def relentless : Reader :=
  ⟨[.data [0x61, 0x20], .fail ⟨.connectionReset, none⟩, .data [0x62], .data [], .data [0x63]]⟩

theorem end_is_final_relentless :
    let call := ((new relentless {}).after [.next]).answer .nextPlaced
    call.result.isFinal call.lexer.failed = true ∧
      call.lexer.release = ⟨[.data [0x62], .data [], .data [0x63]]⟩ ∧
      (∀ last ∈ call.lexer.session [.nextToken, .next, .scan, .nextPlaced],
        last.result.isSpent = true ∧ last.lexer.cursor.source = call.lexer.cursor.source ∧
          last.lexer.position = call.lexer.position) ∧
      ((new relentless {}).errors [.next, .nextPlaced, .scan]).countP
        LexError.isStreamError ≤ 1 := by
  intro call
  obtain ⟨-, -, hspent, hfailures⟩ := end_is_final relentless {}
  have hfinal : call.result.isFinal call.lexer.failed = true := by decide +kernel
  refine ⟨hfinal, by decide +kernel, ?_, hfailures _⟩
  exact hspent [.next] .nextPlaced [.nextToken, .next, .scan, .nextPlaced]
    call.lexer.cursor.source hfinal

end StreamLexer.Lexer
