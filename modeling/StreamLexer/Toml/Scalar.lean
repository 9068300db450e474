import StreamLexer.Number.Decimal
import StreamLexer.Toml.Text

/-!
# Numbers, dates and times of TOML

Digits can be grouped by single underscores. Integers have 64 bits, and a number with a fraction
or an exponent has to lie below the 64-bit infinity unless it is negative. Dates are checked
against the calendar.
-/

set_option autoImplicit false

namespace StreamLexer.Toml

open StreamLexer.Toml.Parser

/-- Digits of the class `p`, in groups with one underscore between two of them. -/
def grouped (p : Char → Bool) : Parser (List Char) := do
  let first ← satisfy p
  let rest ← repeated do
    if ← accept '_' then some <$> satisfy p
    else
      match ← peek with
      | some c => if p c then some <$> next else return none
      | none => return none
  return first :: rest

def sign : Parser Bool := do
  if ← accept '-' then return true
  discard (accept '+')
  return false

/-- Decimal digits without a leading zero. -/
def wholeDigits : Parser (List Char) := do
  if ← accept '0' then return ['0'] else grouped CharClass.isDigit

/-! ## Integers -/

def isOctalDigit (c : Char) : Bool := '0' ≤ c && c ≤ '7'

def isBinaryDigit (c : Char) : Bool := c = '0' || c = '1'

def radixInteger : Parser Int := do
  char '0'
  match ← next with
  | 'x' => return radixValue 16 (← grouped isHexDigit)
  | 'o' => return radixValue 8 (← grouped isOctalDigit)
  | 'b' => return radixValue 2 (← grouped isBinaryDigit)
  | _ => failure

def decimalInteger : Parser Int := do
  let negative ← sign
  let magnitude : Int := Decimal.value (← wholeDigits)
  return if negative then -magnitude else magnitude

def minInteger : Int := -0x8000000000000000

def maxInteger : Int := 0x7FFFFFFFFFFFFFFF

def integer : Parser Int := do
  let value ← radixInteger <|> decimalInteger
  if minInteger ≤ value && value ≤ maxInteger then return value else failure

/-! ## Numbers with a fraction or an exponent -/

/-- Whether `digits * 10 ^ exponent` is rounded to the 64-bit infinity. Exponents beyond the
number of digits or beyond 400 decide like these. -/
def overflows (digits : List Char) (exponent : Int) : Bool :=
  let n := Decimal.value digits
  let bound := Nat.pow 2 1024 - Nat.pow 2 970
  if exponent < 0 then bound * Decimal.scale (min exponent.natAbs digits.length) ≤ n
  else bound ≤ n * Decimal.scale (min exponent.natAbs 400)

def fraction : Parser (List Char) := do
  char '.'
  grouped CharClass.isDigit

def exponent : Parser Int := do
  discard (satisfy fun c => c = 'e' || c = 'E')
  let negative ← sign
  let magnitude : Int := Decimal.value (← grouped CharClass.isDigit)
  return if negative then -magnitude else magnitude

def decimalFloat : Parser Unit := do
  let negative ← sign
  let whole ← wholeDigits
  let part ← optional fraction
  let scale ← optional exponent
  if part.isNone && scale.isNone then failure
  let digits := whole ++ part.getD []
  if !negative && overflows digits (scale.getD 0 - (part.getD []).length) then failure

def specialFloat : Parser Unit := do
  discard sign
  text "inf" <|> text "nan"

def float : Parser String := taken (decimalFloat <|> specialFloat)

/-! ## Dates and times -/

def fixedNumber (count : Nat) : Parser Nat :=
  return Decimal.value (← exactly CharClass.isDigit count)

def twoDigits (least greatest : Nat) : Parser Nat := do
  let n ← fixedNumber 2
  if least ≤ n && n ≤ greatest then return n else failure

def isLeapYear (year : Nat) : Bool :=
  year % 4 = 0 && (year % 100 ≠ 0 || year % 400 = 0)

def daysIn (year month : Nat) : Nat :=
  match month with
  | 2 => if isLeapYear year then 29 else 28
  | 4 | 6 | 9 | 11 => 30
  | _ => 31

def date : Parser Unit := do
  let year ← fixedNumber 4
  char '-'
  let month ← twoDigits 1 12
  char '-'
  discard (twoDigits 1 (daysIn year month))

def hourAndMinute : Parser Unit := do
  discard (twoDigits 0 23)
  char ':'
  discard (twoDigits 0 59)

def time : Parser Unit := do
  hourAndMinute
  char ':'
  discard (twoDigits 0 60)
  discard <| optional do
    char '.'
    discard (satisfy CharClass.isDigit)
    discard (takeWhile CharClass.isDigit)

def offset : Parser Unit := do
  match ← next with
  | 'Z' | 'z' => return
  | '+' | '-' => hourAndMinute
  | _ => failure

def dateAndTime : Parser Unit := do
  date
  discard <| optional do
    discard (satisfy fun c => c = 'T' || c = 't' || c = ' ')
    time
    discard (optional offset)

def dateTime : Parser String := taken (dateAndTime <|> time)

end StreamLexer.Toml
