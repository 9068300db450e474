import StreamLexer.Proofs.Lexer.Runs

/-! # What a lexer remembers of its errors

Once `next` has given an error it gives nothing more. Only `next` looks at that: a call does the same
whether an error is remembered or not, and leaves the memory as it was. So the tokens that are left
of the sequence are the outcomes of a scan up to the first error.
-/

set_option autoImplicit false

namespace StreamLexer

/-- The same lexer, which remembers an error or none. -/
def Lexer.withFailed (lexer : Lexer) (failed : Bool) : Lexer := { lexer with failed }

def Call.withFailed {α : Type} (call : Call α) (failed : Bool) : Call α :=
  { call with lexer := call.lexer.withFailed failed }

namespace Lexer

open Scan

variable {lexer : Lexer}

theorem perform_withFailed {α : Type} (m : Scan α) (lexer : Lexer) (failed : Bool) :
    perform m (lexer.withFailed failed) =
      ((perform m lexer).1, (perform m lexer).2.withFailed failed) := by
  rw [perform, perform, withFailed]
  cases m lexer.cursor <;> rfl

theorem begin_withFailed (lexer : Lexer) (failed : Bool) :
    (lexer.withFailed failed).begin = lexer.begin.withFailed failed := by
  have hphase : (lexer.withFailed failed).phase = lexer.phase := rfl
  have hfirst : perform step { lexer.withFailed failed with phase := .started } = _ :=
    perform_withFailed step { lexer with phase := .started } failed
  rw [begin, begin, hphase]
  cases lexer.phase with
  | started => rfl
  | fresh =>
    dsimp only
    rw [hfirst]
    generalize perform step { lexer with phase := .started } = first
    obtain ⟨error | ⟨⟩, next⟩ := first
    · rfl
    · have hskip : (next.withFailed failed).config.skipMark = next.config.skipMark := rfl
      have hcurrent : (next.withFailed failed).cursor.current = next.cursor.current := rfl
      dsimp only
      rw [perform_withFailed step next failed, hskip, hcurrent]
      split <;> rfl

theorem seek_withFailed (lexer : Lexer) (failed : Bool) :
    (lexer.withFailed failed).seek = lexer.seek.withFailed failed := by
  rw [seek, seek, begin_withFailed]
  generalize lexer.begin = call
  obtain ⟨error | ⟨⟩, events, next⟩ := call
  · rfl
  · dsimp only [Call.withFailed]
    rw [perform_withFailed skipBlanks next failed]

theorem scanHere_withFailed (lexer : Lexer) (failed : Bool) :
    (lexer.withFailed failed).scanHere = lexer.scanHere.withFailed failed := by
  have hcurrent : (lexer.withFailed failed).cursor.current = lexer.cursor.current := rfl
  rw [scanHere, scanHere]
  dsimp only
  rw [hcurrent]
  cases lexer.cursor.current with
  | none => rfl
  | some c =>
    have hposition : (lexer.withFailed failed).position = lexer.position := rfl
    have hconfig : (lexer.withFailed failed).config = lexer.config := rfl
    have hscanned : perform (token ⟨lexer.position, lexer.config.maxLiteralLength⟩ c)
        { lexer.withFailed failed with tokenStart := lexer.position } = _ :=
      perform_withFailed _ { lexer with tokenStart := lexer.position } failed
    dsimp only at hscanned ⊢
    rw [hconfig] at hscanned ⊢
    rw [hposition, hscanned]
    generalize perform (token ⟨lexer.position, lexer.config.maxLiteralLength⟩ c)
      { lexer with tokenStart := lexer.position } = performed
    obtain ⟨error | token, next⟩ := performed <;> rfl

/-- A call does not look at what is remembered. -/
theorem nextPlaced_withFailed (lexer : Lexer) (failed : Bool) :
    (lexer.withFailed failed).nextPlaced = lexer.nextPlaced.withFailed failed := by
  rw [nextPlaced, nextPlaced, seek_withFailed]
  generalize lexer.seek = call
  obtain ⟨error | ⟨⟩, events, next⟩ := call
  · rfl
  · dsimp only [Call.withFailed]
    rw [scanHere_withFailed next failed]
    rfl

theorem failed_nextPlaced (lexer : Lexer) : lexer.nextPlaced.lexer.failed = lexer.failed :=
  congrArg (fun call => call.lexer.failed) (lexer.nextPlaced_withFailed lexer.failed)

/-- The outcomes of the calls that are left. -/
def outcomes (lexer : Lexer) : List (Except LexError Placed) :=
  lexer.scan.result.map Item.outcome

theorem outcomes_of_end (h : lexer.nextPlaced.result = .ok none) : lexer.outcomes = [] := by
  rw [outcomes, scan_of_end h]
  rfl

theorem outcomes_of_item {outcome : Except LexError Placed}
    (h : lexer.nextPlaced.result = outcome.map some) :
    lexer.outcomes = outcome :: lexer.nextPlaced.lexer.outcomes := by
  rw [outcomes, scan_of_item h]
  rfl

theorem outcomes_withFailed (lexer : Lexer) (failed : Bool) :
    (lexer.withFailed failed).outcomes = lexer.outcomes := by
  have hresult : ∀ lexer : Lexer,
      (lexer.withFailed failed).nextPlaced.result = lexer.nextPlaced.result := fun lexer => by
    rw [nextPlaced_withFailed]
    rfl
  induction lexer using scan_induction with
  | ended lexer hend => rw [outcomes_of_end hend, outcomes_of_end ((hresult lexer).trans hend)]
  | item lexer outcome hitem ih =>
    rw [outcomes_of_item hitem, outcomes_of_item ((hresult lexer).trans hitem),
      nextPlaced_withFailed, ← ih]
    rfl

/-- The tokens that are left, up to the first error. -/
theorem tokenize_eq_mapM (hfailed : lexer.failed = false) :
    lexer.tokenize.result = lexer.outcomes.mapM (Except.map Placed.token) := by
  induction lexer using scan_induction with
  | ended lexer hend =>
    rw [tokenize_of_end hfailed hend, outcomes_of_end hend]
    rfl
  | item lexer outcome hitem ih =>
    rw [outcomes_of_item hitem, List.mapM_cons]
    cases outcome with
    | ok placed =>
      rw [tokenize_of_placed hfailed hitem, ih (lexer.failed_nextPlaced.trans hfailed)]
      cases lexer.nextPlaced.lexer.outcomes.mapM (Except.map Placed.token) <;> rfl
    | error error =>
      rw [tokenize_of_error hfailed hitem]
      rfl

theorem mapM_of_error (before : List Placed) (error : LexError)
    (later : List (Except LexError Placed)) :
    (before.map Except.ok ++ Except.error error :: later).mapM (Except.map Placed.token) =
      .error error := by
  induction before with
  | nil =>
    rw [List.map_nil, List.nil_append, List.mapM_cons]
    rfl
  | cons first before ih =>
    rw [List.map_cons, List.cons_append, List.mapM_cons, ih]
    rfl

theorem mapM_eq_ok_iff {outcomes : List (Except LexError Placed)} {tokens : List Token} :
    outcomes.mapM (Except.map Placed.token) = .ok tokens ↔
      ∃ placed : List Placed, outcomes = placed.map .ok ∧ placed.map Placed.token = tokens := by
  constructor
  · intro h
    induction outcomes generalizing tokens with
    | nil =>
      cases h
      exact ⟨[], rfl, rfl⟩
    | cons outcome outcomes ih =>
      rw [List.mapM_cons] at h
      cases outcome with
      | error error => cases h
      | ok first =>
        cases hrest : outcomes.mapM (Except.map Placed.token) with
        | error error =>
          rw [hrest] at h
          cases h
        | ok later =>
          rw [hrest] at h
          cases h
          obtain ⟨placed, rfl, rfl⟩ := ih hrest
          exact ⟨first :: placed, rfl, rfl⟩
  · rintro ⟨placed, rfl, rfl⟩
    induction placed with
    | nil => rfl
    | cons first placed ih =>
      rw [List.map_cons, List.mapM_cons, ih]
      rfl

/-- There are tokens if and only if no error is left. -/
theorem tokenize_iff_outcomes {tokens : List Token} (hfailed : lexer.failed = false) :
    lexer.tokenize.result = .ok tokens ↔
      ∃ placed : List Placed, lexer.outcomes = placed.map .ok ∧
        placed.map Placed.token = tokens := by
  rw [tokenize_eq_mapM hfailed, mapM_eq_ok_iff]

end Lexer

end StreamLexer
