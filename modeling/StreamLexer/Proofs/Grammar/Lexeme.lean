import StreamLexer.Proofs.Scan.Span
import StreamLexer.Text.CharClass
import StreamLexer.Token.Basic

/-! # Lexemes

The grammar of single tokens: which texts denote which tokens, how long a literal is, and which
characters cannot follow a lexeme without a gap because they would belong to it. No scanner occurs
in it.
-/

set_option autoImplicit false

namespace StreamLexer

namespace Grammar

open CharClass

def IsDigits (text : List Char) : Prop :=
  text ≠ [] ∧ ∀ c ∈ text, isDigit c

def IsName : List Char → Prop
  | [] => False
  | c :: rest => isWordStart c ∧ ∀ d ∈ rest, isWordPart d

/-- The text between the quotes of a string, with the content that it stands for. -/
inductive Body : List Char → List Char → Prop where
  | nil : Body [] []
  | plain {c : Char} {body content : List Char} (hquote : c ≠ '"') (hescape : c ≠ '\\')
      (h : Body body content) : Body (c :: body) (c :: content)
  | escape {meaning letter : Char} {body content : List Char}
      (hentry : (meaning, letter) ∈
        [('"', '"'), ('\\', '\\'), ('\n', 'n'), ('\t', 't'), ('\r', 'r'), ('\x00', '0')])
      (h : Body body content) : Body ('\\' :: letter :: body) (meaning :: content)

inductive Denotes : List Char → Token → Prop where
  | keyword (k : Keyword) : Denotes k.spelling.toList (.keyword k)
  | identifier {name : List Char} (hname : IsName name)
      (hfree : ∀ k : Keyword, k.spelling.toList ≠ name) :
      Denotes name (.identifier (String.ofList name))
  | int {digits : List Char} (hdigits : IsDigits digits)
      (hvalue : Decimal.value digits ≤ 0x7FFFFFFF) :
      Denotes digits (.int (Int32.ofNat (Decimal.value digits)))
  | float {whole fraction : List Char} {value : Binary32} (hwhole : IsDigits whole)
      (hfraction : IsDigits fraction) (hvalue : Binary32.ofDecimal? whole fraction = some value) :
      Denotes (whole ++ '.' :: fraction) (.float value)
  | string {body content : List Char} (hbody : Body body content) :
      Denotes ('"' :: body ++ ['"']) (.string (String.ofList content))
  | operator (o : Operator) : Denotes o.spelling.toList (.operator o)

/-- The length that counts is that of the content of a string and that of the text of any other
literal; an operator has no length. -/
def Fits (limit : Option Nat) (lexeme : List Char) : Token → Prop
  | .string content => Allows limit content.length
  | .operator _ => True
  | _ => Allows limit lexeme.length

/-- Standing right behind a lexeme of the token, the character would be read as part of it. -/
def Absorbs : Token → Char → Prop
  | .keyword _, c | .identifier _, c => isWordPart c
  | .int _, c | .float _, c => isDigit c
  | .operator o, c => o ∈ [.lessThan, .greaterThan, .assign, .logicalNot] ∧ c = '='
  | .string _, _ => False

theorem isWordPart_of_start {c : Char} (h : isWordStart c) : isWordPart c := by
  simp [isWordPart, h]

theorem IsName.parts {name : List Char} (h : IsName name) : ∀ c ∈ name, isWordPart c := by
  match name, h with
  | c :: rest, ⟨hstart, hrest⟩ =>
    intro d hd
    obtain rfl | hd := List.mem_cons.mp hd
    · exact isWordPart_of_start hstart
    · exact hrest d hd

theorem IsDigits.head {text : List Char} (h : IsDigits text) :
    ∃ c tail, text = c :: tail ∧ isDigit c := by
  obtain ⟨hne, hall⟩ := h
  cases text with
  | nil => exact absurd rfl hne
  | cons c tail => exact ⟨c, tail, rfl, hall c List.mem_cons_self⟩

theorem isNumeral_iff {text : List Char} : Decimal.isNumeral text = true ↔ IsDigits text := by
  simp [Decimal.isNumeral, IsDigits]

theorem toInt32?_of_digits {digits : List Char} (h : IsDigits digits) :
    Decimal.toInt32? digits =
      if Decimal.value digits ≤ 0x7FFFFFFF then some (Int32.ofNat (Decimal.value digits))
      else none := by
  rw [Decimal.toInt32?, isNumeral_iff.mpr h, Bool.true_and]
  simp only [decide_eq_true_eq]

/-- Digits around a point are never refused as a text. -/
theorem ofText?_of_digits {whole fraction : List Char} (hwhole : IsDigits whole)
    (hfraction : IsDigits fraction) :
    Binary32.ofText? (whole ++ '.' :: fraction) =
      some ((Binary32.ofDecimal? whole fraction).getD ⟨UInt32.ofNat Binary32.infinity⟩) := by
  have hpoint : ∀ c ∈ ('.' :: fraction).head?, ¬isDigit c := by
    rintro c ⟨⟩
    decide
  simp only [Binary32.ofText?]
  rw [Reading.takeWhile_exact hwhole.2 hpoint, Reading.dropWhile_exact hwhole.2 hpoint]
  simp only [isNumeral_iff.mpr hwhole, isNumeral_iff.mpr hfraction, Bool.and_self, if_true]

theorem isName_spelling (k : Keyword) : IsName k.spelling.toList := by
  cases k <;> simp [Keyword.spelling, IsName] <;> decide

theorem denotes_ofWord {name : List Char} (h : IsName name) : Denotes name (Token.ofWord name) := by
  simp only [Token.ofWord]
  cases hspelling : Keyword.ofSpelling? (String.ofList name) with
  | some k =>
    have hname : k.spelling.toList = name := by
      rw [Keyword.spelling_of_ofSpelling? hspelling, String.toList_ofList]
    exact hname ▸ .keyword k
  | none =>
    refine .identifier h fun k hk => ?_
    rw [← hk, String.ofList_toList, Keyword.ofSpelling?_spelling] at hspelling
    cases hspelling

theorem fits_ofWord (limit : Option Nat) (lexeme name : List Char) :
    Fits limit lexeme (Token.ofWord name) ↔ Allows limit lexeme.length := by
  simp only [Token.ofWord]
  split <;> exact Iff.rfl

theorem absorbs_ofWord (name : List Char) (c : Char) :
    Absorbs (Token.ofWord name) c ↔ isWordPart c := by
  simp only [Token.ofWord]
  split <;> exact Iff.rfl

theorem ofWord_ne_int (name : List Char) (value : Int32) : Token.ofWord name ≠ .int value := by
  simp only [Token.ofWord]
  split <;> exact Token.noConfusion

theorem ofWord_spelling (k : Keyword) : Token.ofWord k.spelling.toList = .keyword k := by
  rw [Token.ofWord, String.ofList_toList, Keyword.ofSpelling?_spelling]

theorem ofWord_of_free {name : List Char} (hfree : ∀ k : Keyword, k.spelling.toList ≠ name) :
    Token.ofWord name = .identifier (String.ofList name) := by
  simp only [Token.ofWord]
  cases hspelling : Keyword.ofSpelling? (String.ofList name) with
  | none => rfl
  | some k =>
    refine absurd ?_ (hfree k)
    rw [Keyword.spelling_of_ofSpelling? hspelling, String.toList_ofList]

/-! ## Escapes -/

/-- What is read behind a backslash is what the grammar says. -/
theorem meaningOf?_eq_some_iff {letter meaning : Char} :
    Escape.meaningOf? letter = some meaning ↔
      (meaning, letter) ∈ [('"', '"'), ('\\', '\\'), ('\n', 'n'), ('\t', 't'), ('\r', 'r'),
        ('\x00', '0')] := by
  constructor
  · intro h
    simp only [Escape.meaningOf?] at h
    split at h <;> cases h <;> decide
  · intro h
    simp only [List.mem_cons, Prod.mk.injEq, List.not_mem_nil, or_false] at h
    rcases h with ⟨rfl, rfl⟩ | ⟨rfl, rfl⟩ | ⟨rfl, rfl⟩ | ⟨rfl, rfl⟩ | ⟨rfl, rfl⟩ | ⟨rfl, rfl⟩ <;>
      rfl

/-- What is written for a character stands for it. -/
theorem Body.encodeChar {body content : List Char} (c : Char) (h : Body body content) :
    Body (Escape.encodeChar c ++ body) (c :: content) := by
  simp only [Escape.encodeChar]
  split
  case h_7 hquote hescape _ _ _ _ => exact .plain hquote hescape h
  all_goals exact .escape (by decide) h

/-- Every content has a written form that stands for it. -/
theorem body_encode (content : List Char) : Body (Escape.encode content) content := by
  induction content with
  | nil => exact .nil
  | cons c content ih =>
    rw [Escape.encode, List.flatMap_cons]
    exact ih.encodeChar c

end Grammar

end StreamLexer
