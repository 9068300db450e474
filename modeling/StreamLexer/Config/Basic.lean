/-!
# Configuration

The settings of a lexer. A lexer takes any settings, also ones that `validate` refuses: a capacity
of zero then acts as one, and a limit of zero refuses every literal that is not empty.
-/

set_option autoImplicit false

namespace StreamLexer

structure Config where
  /-- The size in bytes of the buffer in front of the reader. -/
  bufferCapacity : Nat := 8192
  /-- Whether a byte order mark at the start of the stream is skipped. -/
  skipMark : Bool := true
  /-- The greatest length in characters of a string, a word or a number, if there is one. -/
  maxLiteralLength : Option Nat := none
deriving DecidableEq, Repr

namespace Config

instance : Inhabited Config := ⟨{}⟩

inductive Defect where
  | zeroCapacity
  | zeroLimit
deriving DecidableEq, Repr

def Defect.message : Defect → String
  | zeroCapacity => "buffer_capacity must be non-zero"
  | zeroLimit => "max_literal_len must be non-zero when set"

/-- The first setting that is not usable, the capacity before the limit. -/
def defect? (config : Config) : Option Defect :=
  if config.bufferCapacity = 0 then some .zeroCapacity
  else if config.maxLiteralLength = some 0 then some .zeroLimit
  else none

end Config

end StreamLexer
