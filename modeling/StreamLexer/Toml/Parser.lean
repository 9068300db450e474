/-!
# Parsers for TOML

A parser takes characters from the front of a text or refuses it; a refused alternative gives the
characters back. A repetition ends because each of its rounds has to leave a shorter text.
-/

set_option autoImplicit false

namespace StreamLexer.Toml

abbrev Parser (α : Type) : Type := StateT (List Char) Option α

namespace Parser

variable {α : Type}

def peek : Parser (Option Char) := return (← get).head?

def next : Parser Char := fun
  | [] => none
  | c :: rest => some (c, rest)

def satisfy (p : Char → Bool) : Parser Char := do
  let c ← next
  if p c then return c else failure

def char (c : Char) : Parser Unit := discard (satisfy (· = c))

def text (s : String) : Parser Unit := s.toList.forM char

def accept (c : Char) : Parser Bool := do
  if (← peek) = some c then
    discard next
    return true
  else
    return false

def takeWhile (p : Char → Bool) : Parser (List Char) := fun input =>
  some (input.takeWhile p, input.dropWhile p)

def exactly (p : Char → Bool) : (count : Nat) → Parser (List Char)
  | 0 => return []
  | count + 1 => do
    let c ← satisfy p
    return c :: (← exactly p count)

/-- Runs `step` until it gives nothing. -/
def repeated (step : Parser (Option α)) : Parser (List α) := fun input =>
  match step input with
  | none => none
  | some (none, rest) => some ([], rest)
  | some (some a, rest) =>
    if rest.length < input.length then
      (repeated step rest).map fun result => (a :: result.1, result.2)
    else none
termination_by input => input.length

def taken (p : Parser α) : Parser String := do
  let input ← get
  discard p
  return String.ofList (input.take (input.length - (← get).length))

/-! ## Blanks, comments and line ends -/

def isBlank (c : Char) : Bool := c = ' ' || c = '\t'

/-- Characters that can stand in a comment or a string; the controls other than tab cannot. -/
def isPlain (c : Char) : Bool := c = '\t' || (' ' ≤ c && c ≠ '\x7f')

def blanks : Parser Unit := discard (takeWhile isBlank)

/-- A line feed, which a carriage return can precede. -/
def newline : Parser Unit := do
  discard (accept '\r')
  char '\n'

def comment : Parser Unit := do
  char '#'
  discard (takeWhile isPlain)

/-- The end of a line that holds nothing more, or of the text. -/
def lineEnd : Parser Unit := do
  blanks
  if (← peek) = some '#' then comment
  if (← peek) ≠ none then newline

/-- Blanks, line ends and comments between the items of an array. -/
def blankLines : Parser Unit := discard <| repeated do
  blanks
  match ← peek with
  | some '#' =>
    comment
    some <$> newline
  | some '\n' | some '\r' => some <$> newline
  | _ => return none

end Parser

end StreamLexer.Toml
