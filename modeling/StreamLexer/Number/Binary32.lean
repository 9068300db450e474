import StreamLexer.Number.Decimal

/-!
# Binary32 numbers

A number is its 32-bit interchange pattern: a sign bit and a 31-bit magnitude. Every finite
magnitude is a natural multiple of `2 ^ -149`, so reading and writing stay in exact natural
arithmetic: `units` counts that multiple, and `nearest` picks the magnitude whose count is nearest
to a fraction, a tie going to the even pattern.
-/

set_option autoImplicit false

namespace StreamLexer

structure Binary32 where
  bits : UInt32
deriving DecidableEq, Repr

namespace Binary32

def signBit : Nat := 0x80000000

/-- The magnitude of infinity; greater magnitudes are not numbers. -/
def infinity : Nat := 0x7F800000

def hiddenBit : Nat := 0x800000

/-- How many units one is worth. -/
def one : Nat := Nat.pow 2 149

def negative (x : Binary32) : Bool :=
  signBit ≤ x.bits.toNat

def magnitude (x : Binary32) : Nat :=
  x.bits.toNat % signBit

def isNaN (x : Binary32) : Bool :=
  infinity < x.magnitude

def isFinite (x : Binary32) : Bool :=
  x.magnitude < infinity

/-- The value of a finite magnitude, counted in multiples of `2 ^ -149`. -/
def units (magnitude : Nat) : Nat :=
  let exponent := magnitude / hiddenBit
  let fraction := magnitude % hiddenBit
  if exponent = 0 then fraction else (hiddenBit + fraction) * Nat.pow 2 (exponent - 1)

/-- The natural number nearest to `num / den`; a tie goes to the even one. -/
def roundHalfEven (num den : Nat) : Nat :=
  let floor := num / den
  let twice := 2 * (num % den)
  if twice < den then floor
  else if twice = den then floor + floor % 2
  else floor + 1

/-- The magnitude nearest to `num / den`, read with an unbounded exponent: a result of `infinity`
or more lies beyond the finite numbers. The significand keeps 24 bits, or fewer below the least
normal number, and a carry out of it moves into the exponent by itself. -/
def nearest (num den : Nat) : Nat :=
  let scaled := num * one
  let shift := (scaled / den).log2 - 23
  shift * hiddenBit + roundHalfEven scaled (den * Nat.pow 2 shift)

def ofFraction? (num den : Nat) : Option Binary32 :=
  if nearest num den < infinity then some ⟨UInt32.ofNat (nearest num den)⟩ else none

/-- The number that `whole` and `fraction` denote around a decimal point. -/
def ofDecimal? (whole fraction : List Char) : Option Binary32 :=
  ofFraction? (Decimal.value (whole ++ fraction)) (Decimal.scale fraction.length)

/-- The number that digits around a point denote, which is infinite where no finite one is the
nearest; a text of another form denotes nothing. -/
def ofText? (text : List Char) : Option Binary32 :=
  let whole := text.takeWhile CharClass.isDigit
  match text.dropWhile CharClass.isDigit with
  | '.' :: fraction =>
    if Decimal.isNumeral whole && Decimal.isNumeral fraction then
      some ((ofDecimal? whole fraction).getD ⟨UInt32.ofNat infinity⟩)
    else none
  | _ => none

/-- Equality as numbers: nothing equals what is not a number, and both zeros are equal. -/
def equals (x y : Binary32) : Bool :=
  !x.isNaN && !y.isNaN && (x = y || (x.magnitude = 0 && y.magnitude = 0))

/-- The decimal with `places` digits after the point that is next to this magnitude and reads back
as it, as a count of units of its last place. Of two such neighbours the nearer is taken, and the
upper one if they are equally near. -/
def neighbour? (magnitude places : Nat) : Option Nat :=
  let scaled := units magnitude * Decimal.scale places
  let below := scaled / one
  let readsBack (n : Nat) : Bool := nearest n (Decimal.scale places) = magnitude
  if readsBack (below + 1) && (!readsBack below || one ≤ 2 * (scaled % one)) then some (below + 1)
  else if readsBack below then some below
  else none

/-- The digits of a magnitude below infinity. A whole number is written exactly, with one zero
after the point; any other with the fewest digits after the point that read back as it. No
magnitude has more than 149 digits after the point. -/
def digits (magnitude : Nat) : List Char :=
  if units magnitude % one = 0 then Decimal.fixed 1 (units magnitude / one * 10)
  else
    match (List.range 149).findSome? fun p => (neighbour? magnitude (p + 1)).map (p + 1, ·) with
    | some (places, n) => Decimal.fixed places n
    | none => Decimal.fixed 149 (units magnitude * Decimal.scale 149 / one)

def chars (x : Binary32) : List Char :=
  if x.isNaN then "NaN".toList
  else
    let body := if x.isFinite then digits x.magnitude else "inf".toList
    if x.negative then '-' :: body else body

end Binary32

end StreamLexer
