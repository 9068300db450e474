import StreamLexer.Config.Basic
import StreamLexer.Lexer.Error
import StreamLexer.Token.Basic

/-!
# Events

What a lexer reports about its work: its creation, a skipped byte order mark, and the outcome of
every attempt to scan a token. An event has a level, a message and named fields.
-/

set_option autoImplicit false

namespace StreamLexer

inductive Event where
  | created (config : Config)
  | skippedMark
  | scanned (placed : Placed)
  | failed (error : LexError)
  | ended (position : Position)
deriving DecidableEq, Repr

namespace Event

inductive Level where
  | debug | trace
deriving DecidableEq, Repr

inductive Field where
  | text (value : String)
  | count (value : Nat)
  | flag (value : Bool)
deriving DecidableEq, Repr

def level : Event → Level
  | created _ | failed _ | ended _ => .debug
  | skippedMark | scanned _ => .trace

def message : Event → String
  | created _ => "creating lexer"
  | skippedMark => "skipping byte order mark"
  | scanned _ => "scanned token"
  | failed _ => "lexing failed"
  | ended _ => "end of stream"

def renderLimit : Option Nat → String
  | none => "None"
  | some limit => "Some(" ++ Nat.repr limit ++ ")"

def fields : Event → List (String × Field)
  | created config =>
    [("buffer_capacity", .count config.bufferCapacity), ("skip_bom", .flag config.skipMark),
     ("max_literal_len", .text (renderLimit config.maxLiteralLength))]
  | skippedMark => []
  | scanned placed =>
    [("kind", .text placed.token.kindName), ("token", .text placed.token.render),
     ("position", .text placed.start.render)]
  | failed error => [("error", .text error.message)]
  | ended position => [("position", .text position.render)]

end Event

end StreamLexer
