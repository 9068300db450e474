/-!
# Character classes of the token grammar

All classes are ASCII: a character above `U+007F` belongs to none of them and can stand only
inside a string literal.
-/

set_option autoImplicit false

namespace StreamLexer.CharClass

def isBlank (c : Char) : Bool :=
  c = ' ' || c = '\t' || c = '\r' || c = '\n'

def isDigit (c : Char) : Bool :=
  '0' ≤ c && c ≤ '9'

def isLetter (c : Char) : Bool :=
  ('a' ≤ c && c ≤ 'z') || ('A' ≤ c && c ≤ 'Z')

def isWordStart (c : Char) : Bool :=
  c = '_' || isLetter c

def isWordPart (c : Char) : Bool :=
  isWordStart c || isDigit c

def isOperatorStart (c : Char) : Bool :=
  ['-', '!', '*', '/', '%', '+', '<', '>', '=', '&', '|'].contains c

/-! Apart from the start of an operator, the classes are made of those of the standard library. -/

theorem isBlank_eq (c : Char) : isBlank c = c.isWhitespace := rfl

theorem isDigit_eq (c : Char) : isDigit c = c.isDigit := rfl

theorem isLetter_eq (c : Char) : isLetter c = c.isAlpha := by
  have hlower : c.isLower = ('a' ≤ c && c ≤ 'z') := rfl
  have hupper : c.isUpper = ('A' ≤ c && c ≤ 'Z') := Bool.decide_and ('A' ≤ c) (c ≤ 'Z')
  have halpha : c.isAlpha = (c.isUpper || c.isLower) := rfl
  rw [halpha, hlower, hupper, Bool.or_comm]
  rfl

theorem isWordStart_eq (c : Char) : isWordStart c = (c = '_' || c.isAlpha) := by
  rw [isWordStart, isLetter_eq]

theorem isWordPart_eq (c : Char) : isWordPart c = (c = '_' || c.isAlphanum) := by
  rw [isWordPart, isWordStart_eq, isDigit_eq, Bool.or_assoc]
  rfl

end StreamLexer.CharClass
