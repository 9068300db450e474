import StreamLexer.Toml.Parser
import StreamLexer.Text.CharClass

/-!
# Strings and keys of TOML

The four kinds of strings, and keys: bare or quoted names with points between them.
-/

set_option autoImplicit false

namespace StreamLexer.Toml

open StreamLexer.Toml.Parser

def isHexDigit (c : Char) : Bool :=
  CharClass.isDigit c || ('a' ≤ c && c ≤ 'f') || ('A' ≤ c && c ≤ 'F')

def hexValue (c : Char) : Nat :=
  if CharClass.isDigit c then c.toNat - '0'.toNat else c.toLower.toNat - 'a'.toNat + 10

/-- The value of a digit sequence in a base up to sixteen. -/
def radixValue (base : Nat) (digits : List Char) : Nat :=
  digits.foldl (fun n c => base * n + hexValue c) 0

def codePoint (count : Nat) : Parser Char := do
  let n := radixValue 16 (← exactly isHexDigit count)
  if n.isValidChar then return Char.ofNat n else failure

def escape : Parser Char := do
  match ← next with
  | 'b' => return '\x08'
  | 't' => return '\t'
  | 'n' => return '\n'
  | 'f' => return '\x0c'
  | 'r' => return '\r'
  | '"' => return '"'
  | '\\' => return '\\'
  | 'u' => codePoint 4
  | 'U' => codePoint 8
  | _ => failure

def basicString : Parser String := do
  char '"'
  let content ← repeated do
    match ← next with
    | '"' => return none
    | '\\' => some <$> escape
    | c => if isPlain c then return some c else failure
  return String.ofList content

def literalString : Parser String := do
  char '\''
  let content ← takeWhile fun c => isPlain c && c ≠ '\''
  char '\''
  return String.ofList content

/-- A line end inside a string of several lines, or a plain character, starting with `c`. -/
def plainOrNewline (c : Char) : Parser (List Char) :=
  if c = '\n' then return ['\n']
  else if c = '\r' then do
    char '\n'
    return ['\n']
  else if isPlain c then return [c]
  else failure

/-- The blanks and line ends that a backslash at the end of a line removes. -/
def continuation : Parser (List Char) := do
  blanks
  newline
  discard <| repeated do
    match ← peek with
    | some ' ' | some '\t' => some <$> discard next
    | some '\n' | some '\r' => some <$> newline
    | _ => return none
  return []

def escapeOrContinuation : Parser (List Char) :=
  continuation <|> (return [← escape])

/-- A string between runs of three quotes, of which a line end right after the first is no part.
Up to two more quotes can stand before the last run. -/
def multilineString (quote : Char) (piece : Char → Parser (List Char)) : Parser String := do
  discard (exactly (· = quote) 3)
  discard (optional newline)
  let content ← repeated do
    if (← get).take 3 = [quote, quote, quote] then return none
    let c ← next
    if c = quote then return some [c] else some <$> piece c
  let closing ← takeWhile (· = quote)
  if closing.length ≤ 5 then return String.ofList (content.flatten ++ closing.drop 3) else failure

def string : Parser String :=
  (multilineString '"' fun c => if c = '\\' then escapeOrContinuation else plainOrNewline c)
    <|> basicString <|> multilineString '\'' plainOrNewline <|> literalString

/-- A name at the end of a path of tables. -/
structure Key where
  path : List String
  name : String
deriving DecidableEq, Repr

def isBare (c : Char) : Bool :=
  CharClass.isLetter c || CharClass.isDigit c || c = '_' || c = '-'

def simpleKey : Parser String := do
  match ← peek with
  | some '"' => basicString
  | some '\'' => literalString
  | _ =>
    let name ← takeWhile isBare
    if name.isEmpty then failure else return String.ofList name

def keyPart : Parser String := do
  blanks
  let name ← simpleKey
  blanks
  return name

/-- The greatest number of names in a key, and of arrays and inline tables in each other. -/
def maxDepth : Nat := 79

def key : Parser Key := do
  let first ← keyPart
  let rest ← repeated do
    if ← accept '.' then some <$> keyPart else return none
  let names := first :: rest
  if names.length ≤ maxDepth then return ⟨names.dropLast, names.getLast (List.cons_ne_nil _ _)⟩
  else failure

end StreamLexer.Toml
