import StreamLexer.Proofs.Grammar.Composition
import StreamLexer.Proofs.Number.Binary32

/-! # Written forms are lexemes

The written form of a token that some lexeme denotes is itself such a lexeme, and the forms of many
tokens with a space between two of them are a text of these tokens. A space belongs to no lexeme, so
it does not matter which tokens are neighbours.
-/

set_option autoImplicit false

namespace StreamLexer.Grammar

open CharClass

theorem isDigits_digits (n : Nat) : IsDigits (Decimal.digits n) :=
  ⟨Nat.toDigits_ne_nil, fun _ hc => Decimal.isDigit_of_mem_digits hc⟩

theorem isDigits_lastDigits {places : Nat} (h : 0 < places) (n : Nat) :
    IsDigits (Decimal.lastDigits places n) := by
  refine ⟨fun hnil => ?_, fun _ hc => Decimal.isDigit_of_mem_lastDigits hc⟩
  have hlength := Decimal.length_lastDigits places n
  rw [hnil, List.length_nil] at hlength
  omega

theorem denotes_digits {magnitude : Nat} (h : magnitude < Binary32.infinity) :
    Denotes (Binary32.digits magnitude) (.float ⟨UInt32.ofNat magnitude⟩) := by
  obtain ⟨places, n, hplaces, hdigits, hnearest, -⟩ := Binary32.digits_eq_fixed magnitude
  rw [hdigits]
  exact .float (isDigits_digits _) (isDigits_lastDigits hplaces n)
    (Binary32.ofDecimal?_fixed h hnearest)

/-- The written form of a token denotes it, if anything does. -/
theorem denotes_chars {lexeme : List Char} {token : Token} (h : Denotes lexeme token) :
    Denotes token.chars token := by
  cases h with
  | keyword k => exact .keyword k
  | identifier hname hfree =>
    rw [Token.chars, String.toList_ofList]
    exact .identifier hname hfree
  | int hdigits hvalue =>
    generalize Decimal.value lexeme = n at hvalue
    have hform : (Token.int (Int32.ofNat n)).chars = Decimal.digits n := by
      rw [Token.chars, Int32.toInt_ofNat_of_lt (by omega), Decimal.signed,
        if_neg (by omega), Int.natAbs_natCast]
    have hdenotes := Denotes.int (isDigits_digits n) ((Decimal.value_digits n).symm ▸ hvalue)
    rwa [Decimal.value_digits, ← hform] at hdenotes
  | float _ _ hvalue =>
    obtain ⟨hfinite, rfl⟩ := Binary32.ofFraction?_eq_some hvalue
    rw [Token.chars, Binary32.chars_finite hfinite]
    exact denotes_digits hfinite
  | @string body content _ =>
    rw [Token.chars, String.toList_ofList]
    exact .string (body_encode content)
  | operator o => exact .operator o

theorem fits_none (lexeme : List Char) (token : Token) : Fits none lexeme token := by
  cases token <;> first | exact allows_none _ | trivial

theorem Lexes.blank {limit : Option Nat} {text : List Char} {tokens : List Token} {c : Char}
    (h : Lexes limit text tokens) (hc : isBlank c) : Lexes limit (c :: text) tokens := by
  cases h with
  | ended hgap => exact .ended (List.forall_mem_cons.mpr ⟨hc, hgap⟩)
  | token hgap hdenotes hfits hends hlater =>
    exact .token (List.forall_mem_cons.mpr ⟨hc, hgap⟩) hdenotes hfits hends hlater

theorem Lexes.lexeme {limit : Option Nat} {lexeme rest : List Char} {token : Token}
    {tokens : List Token} (hdenotes : Denotes lexeme token) (hfits : Fits limit lexeme token)
    (hends : Ends token rest) (h : Lexes limit rest tokens) :
    Lexes limit (lexeme ++ rest) (token :: tokens) :=
  .token isGap_nil hdenotes hfits hends h

theorem lexes_rendered {tokens : List Token} (h : ∀ token ∈ tokens, Denotes token.chars token) :
    Lexes none ([' '].intercalate (tokens.map Token.chars)) tokens := by
  induction tokens with
  | nil => exact .ended isGap_nil
  | cons token tokens ih =>
    obtain ⟨htoken, htokens⟩ := List.forall_mem_cons.mp h
    cases tokens with
    | nil =>
      have hends : Ends token [] := fun _ hc => nomatch hc
      have hlast := Lexes.lexeme htoken (fits_none _ _) hends (.ended isGap_nil)
      rw [List.append_nil] at hlast
      rwa [List.map_singleton, List.intercalate_singleton]
    | cons next tokens =>
      have hspace : isBlank ' ' := by decide
      have hrest := (ih htokens).blank hspace
      rw [List.map_cons, List.map_cons, List.intercalate_cons_cons, List.append_assoc]
      exact .lexeme htoken (fits_none _ _) (ends_of_gap hspace) hrest

end StreamLexer.Grammar
