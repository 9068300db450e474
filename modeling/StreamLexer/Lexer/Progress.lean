import StreamLexer.Lexer.Basic

/-!
# Progress of the lexer

The weight of a lexer is the size of what it has still to read. No call makes it heavier, and every
call that gives a token or an error makes it lighter. This is what ends the runs over a stream.
-/

set_option autoImplicit false

namespace StreamLexer.Lexer

open Stateful Scan

/-- The weight of the cursor, and one more before the first character is read. -/
def weight (lexer : Lexer) : Nat :=
  lexer.cursor.weight +
    match lexer.phase with
    | .fresh => 1
    | .started => 0

theorem weight_perform {α : Type} (m : Scan α) (lexer : Lexer) :
    (perform m lexer).2.weight + lexer.cursor.weight =
      (after (m lexer.cursor)).weight + lexer.weight := by
  simp only [perform, weight]
  split <;> simp [*] <;> omega

theorem weight_perform_le {α : Type} {m : Scan α} (h : Shrinks Cursor.weight m) (lexer : Lexer) :
    (perform m lexer).2.weight ≤ lexer.weight := by
  have hshrinks := h lexer.cursor
  have hweight := weight_perform m lexer
  omega

/-- The first character is read once: a failure to do so leaves a lighter lexer. -/
theorem weight_begin (lexer : Lexer) :
    lexer.begin.lexer.weight ≤ lexer.weight ∧
      (lexer.begin.result ≠ .ok () → lexer.begin.lexer.weight < lexer.weight) := by
  cases hphase : lexer.phase with
  | started => simp [begin, hphase]
  | fresh =>
    have hstart : ({ lexer with phase := .started } : Lexer).weight < lexer.weight := by
      simp [weight, hphase]
    suffices lexer.begin.lexer.weight < lexer.weight from ⟨Nat.le_of_lt this, fun _ => this⟩
    have hfirst := weight_perform_le shrinks_step { lexer with phase := .started }
    simp only [begin]
    simp only [hphase]
    split
    · rename_i hperform
      rw [hperform] at hfirst
      exact Nat.lt_of_le_of_lt hfirst hstart
    · rename_i next hperform
      rw [hperform] at hfirst
      split
      · have hsecond := weight_perform_le shrinks_step next
        exact Nat.lt_of_le_of_lt (Nat.le_trans hsecond hfirst) hstart
      · exact Nat.lt_of_le_of_lt hfirst hstart

theorem weight_seek (lexer : Lexer) :
    lexer.seek.lexer.weight ≤ lexer.weight ∧
      (lexer.seek.result ≠ .ok () → lexer.seek.lexer.weight < lexer.weight) := by
  have hbegin := lexer.weight_begin
  simp only [seek]
  split
  · rename_i h
    rw [h] at hbegin
    exact ⟨hbegin.1, fun _ => hbegin.2 (by simp)⟩
  · rename_i events next h
    rw [h] at hbegin
    have hweight := weight_perform skipBlanks next
    have hshrinks := shrinks_skipBlanks next.cursor
    refine ⟨by dsimp only at *; omega, fun hresult => ?_⟩
    have hlt : (after (skipBlanks next.cursor)).weight < next.cursor.weight := by
      cases hskip : skipBlanks next.cursor with
      | ok a cursor => simp [perform, hskip] at hresult
      | error error cursor => exact weight_lt_of_skipBlanks_eq_error hskip
    dsimp only at *
    omega

theorem weight_scanHere (lexer : Lexer) :
    lexer.scanHere.lexer.weight ≤ lexer.weight ∧
      (lexer.scanHere.result ≠ .ok none → lexer.scanHere.lexer.weight < lexer.weight) := by
  rw [scanHere]
  dsimp only
  split
  · exact ⟨Nat.le_refl _, fun h => absurd rfl h⟩
  · rename_i c hcurrent
    have hlt := @weight_token_lt ⟨lexer.position, lexer.config.maxLiteralLength⟩ _ _ hcurrent
    have hweight := weight_perform (token ⟨lexer.position, lexer.config.maxLiteralLength⟩ c)
      { lexer with tokenStart := lexer.position }
    have hlast : (perform (token ⟨lexer.position, lexer.config.maxLiteralLength⟩ c)
        { lexer with tokenStart := lexer.position }).2.weight < lexer.weight := by
      have hstart : ({ lexer with tokenStart := lexer.position } : Lexer).weight = lexer.weight :=
        rfl
      dsimp only at hweight hlt hstart
      omega
    split
    · rename_i hperform
      rw [hperform] at hlast
      exact ⟨Nat.le_of_lt hlast, fun _ => hlast⟩
    · rename_i hperform
      rw [hperform] at hlast
      exact ⟨Nat.le_of_lt hlast, fun _ => hlast⟩

theorem weight_nextPlaced (lexer : Lexer) :
    lexer.nextPlaced.lexer.weight ≤ lexer.weight ∧
      (lexer.nextPlaced.result ≠ .ok none → lexer.nextPlaced.lexer.weight < lexer.weight) := by
  have hseek := lexer.weight_seek
  simp only [nextPlaced]
  split
  · rename_i h
    rw [h] at hseek
    exact ⟨hseek.1, fun _ => hseek.2 (by simp)⟩
  · rename_i next h
    rw [h] at hseek
    have hscan := next.weight_scanHere
    exact ⟨Nat.le_trans hscan.1 hseek.1, fun hr => Nat.lt_of_lt_of_le (hscan.2 hr) hseek.1⟩

theorem weight_next_lt {lexer : Lexer} (h : lexer.next.result.isSome) :
    lexer.next.lexer.weight < lexer.weight := by
  have hweight := lexer.weight_nextPlaced
  simp only [next] at h ⊢
  split
  · rename_i hfailed
    simp [hfailed] at h
  · rename_i hfailed
    rw [if_neg hfailed] at h
    simp only [nextToken, Call.map] at h ⊢
    cases hresult : lexer.nextPlaced.result with
    | error error =>
      simp only [Except.map]
      exact hweight.2 (by simp [hresult])
    | ok placed =>
      cases placed with
      | none => simp [hresult, Except.map] at h
      | some placed =>
        simp only [Except.map, Option.map]
        exact hweight.2 (by simp [hresult])

end StreamLexer.Lexer
