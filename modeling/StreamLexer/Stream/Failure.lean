/-!
# Failures of a byte stream

A read can fail in the stream below, and the bytes that it delivers can fail to be UTF-8. Both are
causes here, and the wording is in `message`. Offsets are those of the character that was being
read.
-/

set_option autoImplicit false

namespace StreamLexer

inductive FailureKind where
  | notFound | permissionDenied | connectionReset | brokenPipe | wouldBlock | invalidData | timedOut
  | interrupted | unexpectedEof | other
deriving DecidableEq, Repr

namespace FailureKind

def description : FailureKind → String
  | notFound => "entity not found"
  | permissionDenied => "permission denied"
  | connectionReset => "connection reset"
  | brokenPipe => "broken pipe"
  | wouldBlock => "operation would block"
  | invalidData => "invalid data"
  | timedOut => "timed out"
  | interrupted => "operation interrupted"
  | unexpectedEof => "unexpected end of file"
  | other => "other error"

end FailureKind

/-- A failed read. Without a text of its own it is worded by its kind. -/
structure Failure where
  kind : FailureKind
  text : Option String
deriving DecidableEq, Repr

inductive ReadError where
  | failed (failure : Failure)
  | invalidLead (byte : UInt8) (offset : Nat)
  | truncated (offset : Nat)
  | malformed (length : Nat)
deriving DecidableEq, Repr

namespace ReadError

def kind : ReadError → FailureKind
  | failed failure => failure.kind
  | invalidLead .. | truncated _ | malformed _ => .invalidData

/-- Two upper-case hexadecimal digits. -/
def hexByte (byte : UInt8) : String :=
  String.ofList ([byte.toNat / 16, byte.toNat % 16].map fun d => (Nat.digitChar d).toUpper)

def message : ReadError → String
  | failed failure => failure.text.getD failure.kind.description
  | invalidLead byte offset =>
    "invalid UTF-8 lead byte 0x" ++ hexByte byte ++ " at byte offset " ++ Nat.repr offset
  | truncated offset => "incomplete UTF-8 sequence at byte offset " ++ Nat.repr offset
  | malformed length =>
    "invalid utf-8 sequence of " ++ Nat.repr length ++ " bytes from index 0"

end ReadError

end StreamLexer
