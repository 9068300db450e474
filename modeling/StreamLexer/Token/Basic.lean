import StreamLexer.Number.Binary32
import StreamLexer.Text.Escape
import StreamLexer.Text.Position
import StreamLexer.Token.Keyword
import StreamLexer.Token.Operator

/-!
# Tokens

A token owns its payload. Its written form is one that the lexer reads again: string contents are
quoted and escaped, and a number with a point keeps its point.
-/

set_option autoImplicit false

namespace StreamLexer

inductive Token where
  | string (content : String)
  | int (value : Int32)
  | float (value : Binary32)
  | keyword (keyword : Keyword)
  | identifier (name : String)
  | operator (operator : Operator)
deriving DecidableEq, Repr

namespace Token

def kindName : Token → String
  | string _ => "string literal"
  | int _ => "integer literal"
  | float _ => "float literal"
  | keyword _ => "keyword"
  | identifier _ => "identifier"
  | operator _ => "operator"

def keyword? : Token → Option Keyword
  | keyword k => some k
  | _ => none

def operator? : Token → Option Operator
  | operator o => some o
  | _ => none

def identifier? : Token → Option String
  | identifier name => some name
  | _ => none

def isKeyword (token : Token) (keyword : Keyword) : Bool :=
  token.keyword? = some keyword

def isOperator (token : Token) (operator : Operator) : Bool :=
  token.operator? = some operator

/-- Equality of tokens that compares numbers with a point as numbers: such a token equals itself
unless its payload is not a number, and both zeros are equal. -/
def equals : Token → Token → Bool
  | float x, float y => x.equals y
  | a, b => a = b

def equalsAll : List Token → List Token → Bool
  | [], [] => true
  | a :: as, b :: bs => a.equals b && equalsAll as bs
  | _, _ => false

def chars : Token → List Char
  | string content => Escape.quote content.toList
  | int value => Decimal.signed value.toInt
  | float value => value.chars
  | keyword k => k.spelling.toList
  | identifier name => name.toList
  | operator o => o.spelling.toList

def render (token : Token) : String :=
  String.ofList token.chars

/-- The written forms of a token sequence, with one space between two tokens. -/
def renderAll (tokens : List Token) : String :=
  String.ofList ([' '].intercalate (tokens.map chars))

end Token

/-- A token with the position of its first character. -/
structure Placed where
  token : Token
  start : Position
deriving DecidableEq, Repr

namespace Placed

def equals (a b : Placed) : Bool :=
  a.token.equals b.token && a.start = b.start

end Placed

end StreamLexer
