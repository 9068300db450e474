import StreamLexer.Toml.Scalar
import StreamLexer.Toml.Table

/-!
# TOML documents

A document is a sequence of lines: blank lines, headers of tables or of elements of arrays of
tables, and pairs of a key and a value. A header says to which table the pairs after it belong.
-/

set_option autoImplicit false

namespace StreamLexer.Toml

open StreamLexer.Toml.Parser

/-! ## Values -/

def scalar : Parser Node := do
  match ← peek with
  | some '"' | some '\'' => return .string (← string)
  | some 't' =>
    text "true"
    return .boolean true
  | some 'f' =>
    text "false"
    return .boolean false
  | _ => .dateTime <$> dateTime <|> .float <$> float <|> .integer <$> integer

/-- An array of what `item` reads. A comma can follow the last item. -/
def array (item : Parser Node) : Parser Node := do
  char '['
  let items ← repeated do
    blankLines
    if ← accept ']' then return none
    let node ← item
    blankLines
    match ← peek with
    | some ',' => discard next
    | some ']' => return some node
    | _ => failure
    return some node
  return .array items

def pair (item : Parser Node) : Parser (Key × Node) := do
  let name ← key
  char '='
  blanks
  return (name, ← item)

/-- The pairs up to the brace that closes an inline table. -/
def inlinePairs (item : Parser Node) : Parser (List (Key × Node)) := do
  blanks
  if ← accept '\x7d' then return []
  let first ← pair item
  let rest ← repeated do
    blanks
    if ← accept ',' then some <$> pair item
    else
      char '\x7d'
      return none
  return first :: rest

def ofPairs (pairs : List (Key × Node)) : Option Entries :=
  pairs.foldlM (fun entries entry => entries.insert entry.1.path entry.1.name entry.2) []

def inlineTable (item : Parser Node) : Parser Node := do
  char '\x7b'
  match ofPairs (← inlinePairs item) with
  | some entries => return .inlineTable entries
  | none => failure

/-- A value with at most `depth` arrays and inline tables in each other. -/
def value : (depth : Nat) → Parser Node
  | 0 => scalar
  | depth + 1 => do
    match ← peek with
    | some '[' => array (value depth)
    | some '\x7b' => inlineTable (value depth)
    | _ => scalar

/-! ## Lines -/

inductive Line where
  | blank
  | table (key : Key)
  | element (key : Key)
  | pair (key : Key) (value : Node)

def header : Parser Line := do
  char '['
  let double ← accept '['
  let name ← key
  char ']'
  if double then
    char ']'
    return .element name
  else
    return .table name

/-- One line with its end, or nothing at the end of the text. -/
def line : Parser (Option Line) := do
  blanks
  match ← peek with
  | none => return none
  | some c =>
    let content ←
      if c = '[' then header
      else if c = '#' || c = '\n' || c = '\r' then pure .blank
      else (fun entry => .pair entry.1 entry.2) <$> pair (value maxDepth)
    lineEnd
    return some content

/-! ## Documents -/

/-- What the lines read so far define, with the header that the next pair belongs to. -/
structure Document where
  root : Entries
  header : List String

namespace Document

def empty : Document := ⟨[], []⟩

def add (document : Document) : Line → Option Document
  | .blank => some document
  | .table key => do
    return ⟨← document.root.openTable key, key.path ++ [key.name]⟩
  | .element key => do
    return ⟨← document.root.openElement key, key.path ++ [key.name]⟩
  | .pair key node => do
    let root ← document.root.editAt document.header (·.insert key.path key.name node)
    return { document with root }

end Document

/-- The table that a text denotes, if it is a document. A byte order mark can precede it. -/
def parse (input : List Char) : Option Entries := do
  let body := if input.head? = some '\ufeff' then input.tail else input
  let (lines, _) ← (repeated line).run body
  let document ← lines.foldlM Document.add .empty
  return document.root

end StreamLexer.Toml
