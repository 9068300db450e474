import StreamLexer.Stream.Failure
import StreamLexer.Text.Position
import StreamLexer.Text.Visible

/-!
# Errors of the lexer

An error is a cause with a position. A cause in the source text carries the text it is about; the
only other cause is that the stream could not be read.
-/

set_option autoImplicit false

namespace StreamLexer

namespace LexError

inductive Cause where
  | unrecognizedCharacter (c : Char)
  | unterminatedString
  | invalidEscape (letter : Char)
  | numberOverflow (text : String)
  | malformedNumber (text : String)
  | unrecognizedOperator (text : String)
  | literalTooLong (limit : Nat)
  | streamRead (error : ReadError)
deriving DecidableEq, Repr

namespace Cause

def message : Cause → String
  | unrecognizedCharacter c => "unrecognized character " ++ Visible.render c
  | unterminatedString => "unterminated string literal"
  | invalidEscape letter => "invalid escape sequence '\\" ++ String.singleton letter ++ "'"
  | numberOverflow text => "number literal '" ++ text ++ "' is out of range"
  | malformedNumber text => "malformed number literal '" ++ text ++ "'"
  | unrecognizedOperator text => "unrecognized operator '" ++ text ++ "'"
  | literalTooLong limit =>
    "literal exceeds the maximum length of " ++ Nat.repr limit ++ " characters"
  | streamRead error => "failed to read input stream: " ++ error.message

end Cause

end LexError

structure LexError where
  cause : LexError.Cause
  position : Position
deriving DecidableEq, Repr

namespace LexError

def isStreamError (error : LexError) : Bool :=
  match error.cause with
  | .streamRead _ => true
  | _ => false

def message (error : LexError) : String :=
  error.position.render ++ ": " ++ error.cause.message

end LexError

end StreamLexer
