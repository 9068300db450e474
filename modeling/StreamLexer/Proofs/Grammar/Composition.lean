import Mathlib.Data.List.Chain
import StreamLexer.Proofs.Grammar.Token

/-! # Texts made of lexemes

A text is composed of lexemes with gaps of blanks around them. A gap may be empty only where the
lexeme behind it begins with a character that would not be read as part of the lexeme before it.
`Composed` says this of a text as a whole; `Lexes` takes one lexeme at a time and looks only at the
next character. They agree.
-/

set_option autoImplicit false

namespace StreamLexer.Grammar

open CharClass

/-- Nothing but blank characters. -/
def IsGap (text : List Char) : Prop :=
  ∀ c ∈ text, isBlank c

theorem isGap_nil : IsGap [] := fun _ hc => nomatch hc

structure Piece where
  lexeme : List Char
  token : Token
  /-- What separates the lexeme from the next one. -/
  gap : List Char

def Piece.text (piece : Piece) : List Char :=
  piece.lexeme ++ piece.gap

structure Piece.Valid (limit : Option Nat) (piece : Piece) : Prop where
  denotes : Denotes piece.lexeme piece.token
  fits : Fits limit piece.lexeme piece.token
  gap : IsGap piece.gap

/-- Without a gap the next lexeme does not begin with a character that belongs to this one. -/
def Apart (piece next : Piece) : Prop :=
  piece.gap = [] → ∀ c ∈ next.lexeme.head?, ¬Absorbs piece.token c

/-- The text is a gap followed by lexemes of these tokens with gaps behind them. -/
def Composed (limit : Option Nat) (text : List Char) (tokens : List Token) : Prop :=
  ∃ (lead : List Char) (pieces : List Piece), IsGap lead ∧ (∀ piece ∈ pieces, piece.Valid limit) ∧
    pieces.IsChain Apart ∧ text = lead ++ pieces.flatMap Piece.text ∧
    tokens = pieces.map Piece.token

inductive Lexes (limit : Option Nat) : List Char → List Token → Prop where
  | ended {text : List Char} (hgap : IsGap text) : Lexes limit text []
  | token {gap lexeme rest : List Char} {token : Token} {tokens : List Token} (hgap : IsGap gap)
      (hdenotes : Denotes lexeme token) (hfits : Fits limit lexeme token)
      (hends : Ends token rest) (h : Lexes limit rest tokens) :
      Lexes limit (gap ++ (lexeme ++ rest)) (token :: tokens)

variable {limit : Option Nat} {text : List Char} {tokens : List Token} {token : Token}

theorem not_absorbs_blank {c : Char} (h : isBlank c) : ¬Absorbs token c := by
  simp only [isBlank, Bool.or_eq_true, decide_eq_true_eq] at h
  cases token with
  | string => exact id
  | operator o =>
    rintro ⟨-, rfl⟩
    revert h
    decide
  | int => rcases h with ((rfl | rfl) | rfl) | rfl <;> simp [Absorbs] <;> decide
  | float => rcases h with ((rfl | rfl) | rfl) | rfl <;> simp [Absorbs] <;> decide
  | keyword => rcases h with ((rfl | rfl) | rfl) | rfl <;> simp [Absorbs] <;> decide
  | identifier => rcases h with ((rfl | rfl) | rfl) | rfl <;> simp [Absorbs] <;> decide

theorem ends_of_gap {c : Char} {rest : List Char} (h : isBlank c) : Ends token (c :: rest) := by
  intro d hd
  cases hd
  refine ⟨not_absorbs_blank h, fun _ _ => ?_⟩
  rintro rfl
  revert h
  decide

theorem ends_of_lexeme {next : Token} {lexeme rest : List Char} (hnext : Denotes lexeme next)
    (happart : ∀ c ∈ lexeme.head?, ¬Absorbs token c) : Ends token (lexeme ++ rest) := by
  obtain ⟨c, tail, rfl, hopens⟩ := hnext.opens
  intro d hd
  cases hd
  exact ⟨happart c rfl, fun _ _ => hopens.ne_point⟩

theorem composed_of_lexes (h : Lexes limit text tokens) : Composed limit text tokens := by
  induction h with
  | @ended text hgap => exact ⟨text, [], hgap, by simp, .nil, by simp, rfl⟩
  | @token gap lexeme rest token tokens hgap hdenotes hfits hends _ ih =>
    obtain ⟨lead, pieces, hlead, hvalid, hchain, rfl, rfl⟩ := ih
    refine ⟨gap, ⟨lexeme, token, lead⟩ :: pieces, hgap, ?_, ?_, ?_, rfl⟩
    · intro piece hpiece
      obtain rfl | hpiece := List.mem_cons.mp hpiece
      · exact ⟨hdenotes, hfits, hlead⟩
      · exact hvalid piece hpiece
    · refine hchain.cons fun next hnext (hempty : lead = []) c hc => ?_
      obtain ⟨rest, rfl⟩ := List.head?_eq_some_iff.mp hnext
      obtain ⟨tail, hlexeme⟩ := List.head?_eq_some_iff.mp hc
      refine (hends c ?_).1
      rw [hempty, List.flatMap_cons, Piece.text, hlexeme]
      rfl
    · rw [List.flatMap_cons, Piece.text, List.append_assoc]

theorem lexes_of_pieces {lead : List Char} {pieces : List Piece} (hlead : IsGap lead)
    (hvalid : ∀ piece ∈ pieces, piece.Valid limit) (hchain : pieces.IsChain Apart) :
    Lexes limit (lead ++ pieces.flatMap Piece.text) (pieces.map Piece.token) := by
  induction pieces generalizing lead with
  | nil =>
    rw [List.flatMap_nil, List.append_nil]
    exact .ended hlead
  | cons piece pieces ih =>
    obtain ⟨happart, hlater⟩ := List.isChain_cons.mp hchain
    obtain ⟨hpiece, hpieces⟩ := List.forall_mem_cons.mp hvalid
    -- The gap behind this piece is the one in front of the others.
    have hrest := ih hpiece.gap hpieces hlater
    rw [List.flatMap_cons, Piece.text, List.append_assoc]
    refine .token hlead hpiece.denotes hpiece.fits ?_ hrest
    cases hgap : piece.gap with
    | cons c gap => exact ends_of_gap (hpiece.gap c (by rw [hgap]; exact List.mem_cons_self))
    | nil =>
      cases pieces with
      | nil => exact fun _ hc => nomatch hc
      | cons next pieces =>
        have hnext := (hpieces next List.mem_cons_self).denotes
        rw [List.nil_append, List.flatMap_cons, Piece.text, List.append_assoc]
        exact ends_of_lexeme hnext (happart next rfl hgap)

theorem lexes_iff_composed : Lexes limit text tokens ↔ Composed limit text tokens := by
  constructor
  · exact composed_of_lexes
  · rintro ⟨lead, pieces, hlead, hvalid, hchain, rfl, rfl⟩
    exact lexes_of_pieces hlead hvalid hchain

end StreamLexer.Grammar
