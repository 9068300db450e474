import StreamLexer.Lexer.Run

/-!
# Sessions

A session is a sequence of requests to one lexer or to one cursor. Each request is answered, and
the state it leaves behind is the one that the next request meets.
-/

set_option autoImplicit false

namespace StreamLexer

namespace Lexer

inductive Request where
  | nextToken | nextPlaced | next | count | scan | config | inspect
deriving DecidableEq, Repr

inductive Answer where
  | token (result : Except LexError (Option Token))
  | placed (result : Except LexError (Option Placed))
  | item (result : Option (Except LexError Token))
  | count (items : Nat)
  | items (items : List Item)
  | config (config : Config)
  | nothing

def answer (lexer : Lexer) : Request → Call Answer
  | .nextToken => lexer.nextToken.map .token
  | .nextPlaced => lexer.nextPlaced.map .placed
  | .next => lexer.next.map .item
  | .count => lexer.drain.map fun items => .count items.length
  | .scan => lexer.scan.map .items
  | .config => ⟨.config lexer.config, [], lexer⟩
  | .inspect => ⟨.nothing, [], lexer⟩

def session (lexer : Lexer) : List Request → List (Call Answer)
  | [] => []
  | request :: rest =>
    let call := lexer.answer request
    call :: session call.lexer rest

end Lexer

namespace Cursor

inductive Request where
  | advance
  | take
  | accept (expected : Char)
  | currentIs (p : Char → Bool)

inductive Answer where
  | done
  | taken (c : Option Char)
  | flag (value : Bool)
deriving DecidableEq, Repr

def answer : Request → Stateful ReadError Cursor Answer
  | .advance => do
    advance
    return .done
  | .take => return .taken (← take)
  | .accept expected => return .flag (← accept expected)
  | .currentIs p => return .flag ((← get).currentIs p)

def session (cursor : Cursor) : List Request → List (Except ReadError Answer × Cursor)
  | [] => []
  | request :: rest =>
    match answer request cursor with
    | .ok result next => (.ok result, next) :: session next rest
    | .error error next => (.error error, next) :: session next rest

end Cursor

end StreamLexer
