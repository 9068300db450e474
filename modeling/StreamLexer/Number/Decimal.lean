import StreamLexer.Text.CharClass

/-!
# Decimal digits

Reading and writing of numbers in base ten, without separators.
-/

set_option autoImplicit false

namespace StreamLexer.Decimal

def digitValue (c : Char) : Nat :=
  c.toNat - '0'.toNat

def value (digits : List Char) : Nat :=
  digits.foldl (fun n c => 10 * n + digitValue c) 0

/-- Whether the text is a number: one digit or more, and nothing else. -/
def isNumeral (text : List Char) : Bool :=
  !text.isEmpty && text.all CharClass.isDigit

/-- The integer that a text without a sign denotes, if it is a number and has a place in 32 bits. -/
def toInt32? (text : List Char) : Option Int32 :=
  if isNumeral text && value text ≤ 0x7FFFFFFF then some (Int32.ofNat (value text)) else none

/-- The digits of `n` without leading zeros; zero is one digit. -/
def digits (n : Nat) : List Char :=
  Nat.toDigits 10 n

/-- The digits of an integer, with a minus sign if it is negative. -/
def signed (n : Int) : List Char :=
  if n < 0 then '-' :: digits n.natAbs else digits n.natAbs

def lastDigits : (places n : Nat) → List Char
  | 0, _ => []
  | places + 1, n => lastDigits places (n / 10) ++ [Nat.digitChar (n % 10)]

/-- How many units of the last of so many places are one. -/
def scale (places : Nat) : Nat := Nat.pow 10 places

/-- The number `n / scale places` with exactly `places` digits after the point. -/
def fixed (places n : Nat) : List Char :=
  digits (n / scale places) ++ '.' :: lastDigits places n

@[simp] theorem length_lastDigits (places n : Nat) : (lastDigits places n).length = places := by
  induction places generalizing n with
  | zero => rfl
  | succ places ih => simp [lastDigits, ih]

end StreamLexer.Decimal
