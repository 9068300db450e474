import StreamLexer.Lexer.Event
import StreamLexer.Scan.Token

/-!
# The lexer

A lexer gives one token per call. The first call reads the first character and skips a byte order
mark if the configuration says so; each call skips blank characters and scans one token. A call
also tells which events it reports. A failed call has consumed what it looked at, and the next call
goes on from there; where the stream ends or fails, the lookahead is empty from then on.
-/

set_option autoImplicit false

namespace StreamLexer

inductive Phase where
  | fresh | started
deriving DecidableEq, Repr

structure Lexer where
  cursor : Cursor
  config : Config
  phase : Phase
  /-- Where the last token, or the attempt to scan one, started. -/
  tokenStart : Position
  /-- Whether an error has been given by `next`. -/
  failed : Bool
deriving DecidableEq, Repr

/-- What a call to a lexer gives: its result, the events it reports and the lexer after it. -/
structure Call (α : Type) where
  result : α
  events : List Event
  lexer : Lexer

def Call.map {α β : Type} (f : α → β) (call : Call α) : Call β :=
  ⟨f call.result, call.events, call.lexer⟩

namespace Lexer

open Scan

def byteOrderMark : Char := '\ufeff'

def new (reader : Reader) (config : Config) : Lexer :=
  ⟨Cursor.new reader config.bufferCapacity, config, .fresh, .start, false⟩

/-- A lexer that has just been made, with the report of it. -/
def announce (lexer : Lexer) : Call Unit :=
  ⟨(), [.created lexer.config], lexer⟩

def create (reader : Reader) (config : Config) : Call Unit :=
  (new reader config).announce

def ofText (text : List Char) : Lexer :=
  new (.ofBytes (Utf8.encode text)) {}

def position (lexer : Lexer) : Position := lexer.cursor.position

/-- What the reader still holds; bytes already in the buffer are lost. -/
def release (lexer : Lexer) : Reader := lexer.cursor.release

def perform {α : Type} (m : Scan α) (lexer : Lexer) : Except LexError α × Lexer :=
  match m lexer.cursor with
  | .ok a cursor => (.ok a, { lexer with cursor })
  | .error error cursor => (.error error, { lexer with cursor })

/-- Reads the first character, unless that was done before. -/
def begin (lexer : Lexer) : Call (Except LexError Unit) :=
  match lexer.phase with
  | .started => ⟨.ok (), [], lexer⟩
  | .fresh =>
    match perform step { lexer with phase := .started } with
    | (.error error, next) => ⟨.error error, [], next⟩
    | (.ok (), next) =>
      if next.config.skipMark && next.cursor.current = some byteOrderMark then
        let (result, last) := perform step next
        ⟨result, [.skippedMark], last⟩
      else ⟨.ok (), [], next⟩

/-- Moves to the first character of the next token. -/
def seek (lexer : Lexer) : Call (Except LexError Unit) :=
  match lexer.begin with
  | ⟨.error error, events, next⟩ => ⟨.error error, events, next⟩
  | ⟨.ok (), events, next⟩ =>
    let (result, last) := perform skipBlanks next
    ⟨result, events, last⟩

/-- Scans the token in front, or finds the stream at its end. -/
def scanHere (lexer : Lexer) : Call (Except LexError (Option Placed)) :=
  let start := lexer.position
  let lexer := { lexer with tokenStart := start }
  match lexer.cursor.current with
  | none => ⟨.ok none, [.ended start], lexer⟩
  | some c =>
    match perform (token ⟨start, lexer.config.maxLiteralLength⟩ c) lexer with
    | (.ok token, next) => ⟨.ok (some ⟨token, start⟩), [.scanned ⟨token, start⟩], next⟩
    | (.error error, next) => ⟨.error error, [.failed error], next⟩

def nextPlaced (lexer : Lexer) : Call (Except LexError (Option Placed)) :=
  match lexer.seek with
  | ⟨.error error, events, next⟩ => ⟨.error error, events, next⟩
  | ⟨.ok (), events, next⟩ =>
    let call := next.scanHere
    { call with events := events ++ call.events }

def nextToken (lexer : Lexer) : Call (Except LexError (Option Token)) :=
  lexer.nextPlaced.map fun result => result.map (·.map Placed.token)

/-- The next item of the sequence of tokens that ends with the first error. -/
def next (lexer : Lexer) : Call (Option (Except LexError Token)) :=
  if lexer.failed then ⟨none, [], lexer⟩
  else
    match lexer.nextToken with
    | ⟨.ok none, events, last⟩ => ⟨none, events, last⟩
    | ⟨.ok (some token), events, last⟩ => ⟨some (.ok token), events, last⟩
    | ⟨.error error, events, last⟩ => ⟨some (.error error), events, { last with failed := true }⟩

end Lexer

end StreamLexer
